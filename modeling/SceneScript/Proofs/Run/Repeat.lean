import SceneScript.Proofs.Run.Equivariance
import SceneScript.Proofs.Scene.Entries

namespace SceneScript

namespace Store
variable {s t : Store} {table : Table Value}

/-- What a table gives access to: its entries, what the modules among them export, and the items of
lists. -/
inductive Reachable (s : Store) (table : Table Value) : Value → Prop
  | entry {name : String} {value : Value} : table.get? name = some value → Reachable s table value
  | exported {id : ModuleId} {name : String} {value : Value} : Reachable s table (.module id) →
    (s.exports id).get? name = some value → Reachable s table value
  | item {items : List Value} {value : Value} : Reachable s table (.list items) → value ∈ items →
    Reachable s table value

/-- The objects of the table are in the store, and no function of the table draws random numbers. -/
structure Deterministic (s : Store) (table : Table Value) : Prop extends s.Supplies table where
  hasObject : ∀ id, s.Reachable table (.object id) → s.hasObject id
  not_random : ∀ f, s.Reachable table (.native f) → f.function.isRandom = false

def LeavesTable (s : Store) (table : Table Value) (t : Store) : Prop :=
  ∀ id, s.Reachable table (.object id) → t.object id = s.object id

theorem object_of_not_hasObject {id : ObjectId} (h : ¬ s.hasObject id) : s.object id = default := by
  rw [object, Array.getElem?_eq_none (Nat.not_lt.1 h)]
  rfl

/-- Moves all objects that are not in the first store behind those of the second. -/
def shift (s : Store) (table : Table Value) (t : Store) : Renaming where
  object id := if id.index < s.objects.size then id
    else ⟨id.index + (t.objects.size - s.objects.size)⟩
  module id := id
  knowsObject id := s.Reachable table (.object id) ∨ ¬ s.hasObject id
  knowsModule id := s.Reachable table (.module id)
  object_inj := by
    rintro ⟨a⟩ ⟨b⟩ - - h
    dsimp only at h
    split at h <;> split at h <;> rw [ObjectId.mk.injEq] at h ⊢ <;> omega
  module_inj _ _ _ _ h := h

theorem shift_object_of_hasObject (s : Store) (table : Table Value) (t : Store) {id : ObjectId}
    (h : s.hasObject id) : (s.shift table t).object id = id := if_pos h

theorem shift_object_of_not_hasObject (s : Store) (table : Table Value) (t : Store) {id : ObjectId}
    (h : ¬ s.hasObject id) :
    (s.shift table t).object id = ⟨id.index + (t.objects.size - s.objects.size)⟩ := if_neg h

mutual
theorem Deterministic.rename_eq (h : s.Deterministic table) :
    ∀ value : Value, s.Reachable table value →
      value.rename (s.shift table t) = value ∧ value.Known (s.shift table t)
  | .list items, hvalue => by
    obtain ⟨heq, hknown⟩ := h.renameAll_eq items fun value hitem => hvalue.item hitem
    exact ⟨congrArg Value.list heq, hknown⟩
  | .object id, hvalue =>
    ⟨congrArg Value.object (shift_object_of_hasObject s table t (h.hasObject id hvalue)),
      .inl hvalue⟩
  | .module _, hvalue => ⟨rfl, hvalue⟩
  | .native f, hvalue => ⟨rfl, h.not_random f hvalue⟩
  | .number _, _ => ⟨rfl, trivial⟩
  | .string _, _ => ⟨rfl, trivial⟩
  | .bool _, _ => ⟨rfl, trivial⟩
  | .nil, _ => ⟨rfl, trivial⟩
  | .vector _, _ => ⟨rfl, trivial⟩
  | .material _, _ => ⟨rfl, trivial⟩
theorem Deterministic.renameAll_eq (h : s.Deterministic table) :
    ∀ values : List Value, (∀ value ∈ values, s.Reachable table value) →
      Value.renameAll (s.shift table t) values = values ∧ Value.AllKnown (s.shift table t) values
  | [], _ => ⟨rfl, trivial⟩
  | first :: more, hvalues => by
    obtain ⟨hfirst, hmore⟩ := List.forall_mem_cons.1 hvalues
    obtain ⟨heq, hknown⟩ := h.rename_eq first hfirst
    obtain ⟨hall, hallKnown⟩ := h.renameAll_eq more hmore
    exact ⟨by rw [Value.renameAll, heq, hall], hknown, hallKnown⟩
end

/-- A store that has grown and left the table alone is the same up to the shift. -/
theorem Deterministic.mirrors (h : s.Deterministic table) (hmodules : t.modules = s.modules)
    (hsize : s.objects.size ≤ t.objects.size) (hleft : s.LeavesTable table t) :
    s.Mirrors (s.shift table t) t where
  hasObject_iff id hid := by
    by_cases hhas : s.hasObject id
    · rw [shift_object_of_hasObject s table t hhas]
      exact iff_of_true (Nat.lt_of_lt_of_le hhas hsize) hhas
    · rw [shift_object_of_not_hasObject s table t hhas]
      refine iff_of_false (fun hlt => ?_) hhas
      simp only [Store.hasObject] at hhas hlt
      omega
  object_eq id hid := by
    by_cases hhas : s.hasObject id
    · rw [shift_object_of_hasObject s table t hhas]
      exact hleft id (hid.resolve_right fun hnot => hnot hhas)
    · rw [shift_object_of_not_hasObject s table t hhas, object_of_not_hasObject hhas]
      apply object_of_not_hasObject
      simp only [Store.hasObject] at hhas ⊢
      omega
  fresh i := by
    -- What the first store adds next is not in it yet, so the shift sends it past the end of the
    -- other.
    have hnew : ¬ s.hasObject ⟨s.objects.size + i⟩ := by
      simp only [Store.hasObject]
      omega
    refine ⟨.inr hnew, ?_⟩
    rw [shift_object_of_not_hasObject s table t hnew, ObjectId.mk.injEq]
    dsimp only
    omega
  exports_eq id hid name := by
    have hexports : t.exports id = s.exports id := by simp only [exports, hmodules]
    show (t.exports id).get? name = _
    rw [hexports]
    cases hvalue : (s.exports id).get? name with
    | none => rfl
    | some value => exact congrArg some (h.rename_eq value (hid.exported hvalue)).1.symm
  exports_known id hid name value hvalue := (h.rename_eq value (hid.exported hvalue)).2

end Store

theorem Scope.rename_eq_self {r : Renaming} {s : Scope}
    (h : ∀ value, s.Binds value → value.rename r = value) : s.rename r = s := by
  have hframe : ∀ frame ∈ s.frames, Frame.rename r frame = frame := by
    intro frame hmem
    apply Table.ext_get?
    intro name
    rw [Frame.get?_rename]
    cases hb : frame.get? name with
    | none => rfl
    | some b =>
      have hvalue : b.value.rename r = b.value := h b.value ⟨frame, hmem, name, b, hb, rfl⟩
      rw [Option.map_some, Binding.rename, hvalue]
  have hblocks : s.blocks.map (Frame.rename r) = s.blocks :=
    (List.map_congr_left fun frame hmem => hframe frame (List.mem_append_left _ hmem)).trans
      (List.map_id s.blocks)
  have hfile : Frame.rename r s.file = s.file :=
    hframe s.file (List.mem_append_right _ (List.mem_singleton_self _))
  rw [Scope.rename, hfile, hblocks]

namespace Machine
variable {table : Table Value} {s t : Store}

theorem inert_of_mem_constants {name : String} {value : Value}
    (h : (name, value) ∈ Scope.constants) : value.Inert := by
  have hconstants : ∀ entry ∈ Scope.constants, entry.2.Inert := by
    simp [Scope.constants, Scope.colors, Value.inert_number, Value.inert_string, Value.inert_bool,
      Value.inert_nil, Value.inert_vector]
  exact hconstants _ h

theorem mirrors_start (h : s.Deterministic table) (hmodules : t.modules = s.modules)
    (hsize : s.objects.size ≤ t.objects.size) (hleft : s.LeavesTable table t) :
    (start table s).Mirrors (s.shift table t) (start table t) := by
  have hscope : ∀ value, (start table s).scope.Binds value →
      value.rename (s.shift table t) = value ∧ value.Known (s.shift table t) := by
    intro value hvalue
    rcases binds_start hvalue with ⟨name, hname⟩ | ⟨name, hname⟩
    · exact h.rename_eq value (.entry hname)
    · exact inert_of_mem_constants hname _
  exact {
    store := h.mirrors hmodules hsize hleft
    scope_eq := (Scope.rename_eq_self fun value hvalue => (hscope value hvalue).1).symm
    scope_known := fun value hvalue => (hscope value hvalue).2
    scene_eq := rfl
    scene_known := nofun
    logs_eq := rfl
    notices_eq := rfl }

variable {m : Machine} {placed : List Placement}

/-- An old object that a run has in its scope was there when the run began. -/
theorem binds_start_of_route (h : (start table s).Route placed m) {id : ObjectId}
    (hid : s.hasObject id) (hbinds : m.scope.Binds (.object id)) :
    (start table s).scope.Binds (.object id) := by
  induction h with
  | start => exact hbinds
  | step hroute hstep _ ih =>
    cases hstep with
    | evaluate hgrows => exact ih (hgrows.scope_eq ▸ hbinds)
    | enter => exact ih (Scope.binds_push hbinds)
    | leave => exact ih (Scope.binds_pop hbinds)
    | bind name confined hvalue =>
      rcases Scope.binds_bind hbinds with rfl | hold
      · cases hvalue
      · exact ih hold
    | @place between name confined source hgrows hsource =>
      -- The one object that the name is bound to is newer than all of the first store.
      rcases Scope.binds_bind hbinds with heq | hold
      · have hsize : s.objects.size ≤ between.store.objects.size :=
          Nat.le_trans hroute.path.size_le hgrows.store.size_le
        cases heq
        exact absurd hid (Nat.not_lt.2 hsize)
      · exact ih (hgrows.scope_eq ▸ hold)
    | _ => exact ih hbinds

/-- What no entry of the table is itself stays as it was found. -/
theorem object_eq_of_route (hsupplies : s.Supplies table) (h : (start table s).Route placed m)
    {id : ObjectId} (hid : s.hasObject id) (hentry : ∀ name, table.get? name ≠ some (.object id)) :
    m.store.object id = s.object id := by
  -- A step changes a record that a name leads to. No name leads to this one, as bindings of objects
  -- are copies.
  induction h with
  | start => rfl
  | @step placed new between after hroute _ hspares ih =>
    have hhas : between.store.hasObject id := Nat.lt_of_lt_of_le hid hroute.path.size_le
    rw [hspares.object_eq id hhas ?_, ih]
    -- The scope has an old object only from the table, and the scene has new objects only.
    rintro (⟨name, hname⟩ | ⟨name, hname⟩)
    · have hbinds := binds_start_of_route hroute hid (Scope.binds_of_lookup? hname)
      rcases binds_start hbinds with ⟨other, hother⟩ | ⟨other, hother⟩
      · exact hentry other hother
      · cases object?_of_mem_constants hother
    · have hplaced := placed_of_path hsupplies hroute.path
      rw [hplaced.scene] at hname
      obtain ⟨q, hq, rfl⟩ := Option.map_eq_some_iff.1 hname
      exact (hplaced.new q (List.mem_of_find?_eq_some hq)).1 hid

end Machine

namespace Program
variable {p : Program} {table : Table Value} {store : Store}

/-- Whenever the program has a result it leaves the objects of the table as they were. -/
def Leaves (p : Program) (table : Table Value) (store : Store) : Prop :=
  ∀ r, p.run table store = .ok r → store.LeavesTable table r.store

/-- Whenever the program has a result it has one again on the store that is left, which shows the
same. -/
def Repeats (p : Program) (table : Table Value) (store : Store) : Prop :=
  ∀ r, p.run table store = .ok r → ∃ again, p.run table r.store = .ok again ∧ r.Same again

theorem repeats_of_leaves (h : store.Deterministic table) (hleaves : p.Leaves table store) :
    p.Repeats table store := by
  intro r hrun
  obtain ⟨m, hm, rfl⟩ := exists_reaches_of_run hrun
  obtain ⟨placed, hpath⟩ := hm.leads
  have hmirrors := Machine.mirrors_start h hpath.modules_eq hpath.size_le (hleaves _ hrun)
  rcases (run_agree hmirrors p).cases with ⟨first, again, hfirst, hagain, hsame⟩ | ⟨stop, hfirst, -⟩
  · obtain rfl : first = m.result := Except.ok.inj (hfirst.symm.trans hrun)
    exact ⟨again, hagain, hsame⟩
  · cases hfirst.symm.trans hrun

theorem leaves_of_no_object (h : store.Deterministic table)
    (hentries : ∀ name id, table.get? name ≠ some (.object id)) : p.Leaves table store := by
  intro r hrun id hid
  obtain ⟨m, hm, rfl⟩ := exists_reaches_of_run hrun
  obtain ⟨placed, hroute⟩ := hm.moves
  exact Machine.object_eq_of_route h.toSupplies hroute (h.hasObject id hid) fun name =>
    hentries name id

end Program

namespace Machine
open Run

theorem runStatement_print_parent {m : Machine} {name : String} {id : ObjectId}
    (h : m.scope.lookup? name = some (.object id)) :
    m.runStatement (.print default (.reference default name ["parent"])) =
      .ok { m with
        logs := m.logs.push (m.store.display (Value.ofName? (m.store.object id).parent)) } := by
  have hlookup : placing default (Run.lookup name) m = (.ok (.object id), m) := by
    rw [placing_apply, Run.lookup, bind_apply_of_ok _ (lookup?_apply name m), h]
    rfl
  have hevaluate : placing default (evaluate (.reference default name ["parent"])) m =
      (.ok (Value.ofName? (m.store.object id).parent), m) := by
    rw [placing_apply, evaluate, bind_apply_of_ok _ hlookup]
    rfl
  rw [runStatement, execute, bind_apply_of_ok _ hevaluate]
  rfl

theorem runStatement_group (m : Machine) (name group : String) :
    m.runStatement (.assign default group false (.group default [name])) =
      let grown := { m with store := (m.store.addObject (.ofShape (.group [name]))).2 }
      .ok ((grown.place group m.store.nextId).bind group false (.object grown.store.nextId)) := by
  have hevaluate : placing default (evaluate (.group default [name])) m =
      (.ok (.object m.store.nextId),
        { m with store := (m.store.addObject (.ofShape (.group [name]))).2 }) := by
    rw [placing_apply, evaluate]
    rfl
  rw [runStatement, execute, bind_apply_of_ok _ hevaluate,
    bind_apply_of_ok _ (bindObject_object group m.store.nextId _)]
  rfl

/-- A new group adopts the object that its one child is bound to. -/
theorem parent_place_group {m : Machine} {name : String} {id : ObjectId}
    (h : m.scope.lookup? name = some (.object id)) (hid : m.store.hasObject id) (group : String) :
    let grown := { m with store := (m.store.addObject (.ofShape (.group [name]))).2 }
    (grown.place group m.store.nextId).store.hasObject id ∧
      ((grown.place group m.store.nextId).store.object id).parent = some group := by
  intro grown
  have hgrown : grown.store.hasObject id := (Store.hasObject_addObject _ _ id).2 (.inl hid)
  have hgroup : grown.store.object m.store.nextId = .ofShape (.group [name]) :=
    (Store.object_addObject m.store _ _).trans (if_pos rfl)
  have hchild : id ∈ grown.childrenOf m.store.nextId := by
    rw [childrenOf, hgroup]
    exact List.mem_filterMap.2 ⟨name, List.mem_singleton_self name, by rw [h]; rfl⟩
  refine ⟨hasObject_place.2 (.inl hgrown), ?_⟩
  rw [object_place hgrown, if_pos hchild]

end Machine

namespace Program
variable {table : Table Value} {store : Store}

/-- A program that shows the parent of an object and puts the object into a group. -/
def adopting (name group : String) : Program :=
  ⟨[.print default (.reference default name ["parent"]),
    .assign default group false (.group default [name])]⟩

theorem exists_run_adopting {name : String} {id : ObjectId}
    (hentry : table.get? name = some (.object id)) (hid : store.hasObject id) (group : String) :
    ∃ r, (adopting name group).run table store = .ok r ∧
      r.logs = [(store.object id).parent.getD "nil"] ∧
      r.store.hasObject id ∧ (r.store.object id).parent = some group := by
  have hlookup : (Machine.start table store).scope.lookup? name = some (.object id) :=
    Scope.lookup?_seedAll_toList (Scope.blocks_seedAll .empty Scope.constants) hentry
  have hshown : store.display (Value.ofName? (store.object id).parent) =
      (store.object id).parent.getD "nil" := by
    cases (store.object id).parent <;> rfl
  rw [run, adopting, List.foldlM_cons, Machine.runStatement_print_parent hlookup]
  show ∃ r, Except.map Machine.result ([Stmt.assign default group false
    (.group default [name])].foldlM Machine.runStatement _) = .ok r ∧ _
  rw [List.foldlM_cons, Machine.runStatement_group]
  exact ⟨_, rfl, congrArg ([·]) hshown, Machine.parent_place_group hlookup hid group⟩

/-- Which programs can be run again with the same table: those that leave its objects as they were,
and so all of them if and only if no entry of the table is an object itself. What is a member of a
module is copied before it can be changed, but an entry of the table is changed in place. -/
theorem repeats_iff (h : store.Deterministic table) :
    (∀ p : Program, p.Leaves table store → p.Repeats table store) ∧
    ((∀ p : Program, p.Leaves table store) ↔ ∀ name id, table.get? name ≠ some (.object id)) ∧
    ((∀ p : Program, p.Repeats table store) ↔ ∀ name id, table.get? name ≠ some (.object id)) := by
  have hall (p : Program) : p.Leaves table store → p.Repeats table store := repeats_of_leaves h
  have hentries : (∀ p : Program, p.Repeats table store) →
      ∀ name id, table.get? name ≠ some (.object id) := by
    intro hrepeats name id hentry
    have hid : store.hasObject id := h.held name _ hentry id rfl
    -- The second run shows the group as the parent, which is not what the first run has shown.
    obtain ⟨group, hgroup⟩ : ∃ group, group ≠ (store.object id).parent.getD "nil" := by
      refine ⟨(store.object id).parent.getD "nil" ++ "!", fun heq => ?_⟩
      have hlength := congrArg String.length heq
      rw [String.length_append] at hlength
      exact absurd hlength (Nat.ne_of_gt (Nat.lt_succ_self _))
    obtain ⟨r, hrun, hlogs, hhas, hparent⟩ := exists_run_adopting hentry hid group
    obtain ⟨again, hagain, hsame⟩ := hrepeats _ r hrun
    obtain ⟨r', hrun', hlogs', -⟩ := exists_run_adopting hentry hhas group
    obtain rfl : again = r' := Except.ok.inj (hagain.symm.trans hrun')
    rw [hsame.logs_eq, hlogs, hparent] at hlogs'
    exact hgroup (List.singleton_inj.1 hlogs').symm
  refine ⟨hall, ⟨fun hleaves => ?_, fun hnone p => ?_⟩, ⟨hentries, fun hnone p => ?_⟩⟩
  · exact hentries fun p => hall p (hleaves p)
  · exact leaves_of_no_object h hnone
  · exact hall p (leaves_of_no_object h hnone)

/-- A table with one object in it. -/
theorem not_repeats_of_object :
    let store : Store := ⟨#[.ofShape (.group [])], #[], #[]⟩
    let table : Table Value := .ofList [("o", .object ⟨0⟩)]
    store.Deterministic table ∧ ¬ ∀ p : Program, p.Repeats table store := by
  intro store table
  have honly : ∀ name value, table.get? name = some value → value = .object ⟨0⟩ := by
    intro name value hvalue
    exact congrArg Prod.snd (List.mem_singleton.1 (Table.mem_of_get?_ofList hvalue))
  have hreachable : ∀ value, store.Reachable table value → value = .object ⟨0⟩ := by
    intro value hvalue
    induction hvalue with
    | entry hvalue => exact honly _ _ hvalue
    | exported _ _ ih => cases ih
    | item _ _ ih => cases ih
  have hdeterministic : store.Deterministic table := by
    refine ⟨⟨fun id name value hvalue => ?_, fun name value hvalue id hid => ?_⟩, fun id hid => ?_,
      fun f hf => ?_⟩
    · have hexports : store.exports id = .empty := by simp [Store.exports, store]
      rw [hexports] at hvalue
      cases hvalue
    · rw [honly name value hvalue] at hid
      cases hid
      exact Nat.one_pos
    · cases hreachable _ hid
      exact Nat.one_pos
    · cases hreachable _ hf
  refine ⟨hdeterministic, fun hrepeats => ?_⟩
  exact (repeats_iff hdeterministic).2.2.1 hrepeats "o" ⟨0⟩ (Table.get?_insert_self _ "o" _)

end Program
end SceneScript
