import SceneScript.Proofs.Run.Repeat

namespace SceneScript

def Renaming.SameTable (r : Renaming) (table other : Table Value) : Prop :=
  other = table.map (Value.rename r) ∧ ∀ name value, table.get? name = some value → value.Known r

namespace Renaming.SameTable
variable {r : Renaming} {table other : Table Value} {name : String} {value value' : Value}

theorem empty (r : Renaming) : r.SameTable .empty .empty := ⟨rfl, nofun⟩

theorem rel_get? (h : r.SameTable table other) (name : String) :
    Option.Rel r.SameValue (table.get? name) (other.get? name) := by
  refine rel_of_map ?_ (h.2 name)
  rw [h.1, Table.get?_map]

theorem insert (h : r.SameTable table other) (name : String) (hvalue : r.SameValue value value') :
    r.SameTable (table.insert name value) (other.insert name value') := by
  obtain ⟨rfl, hknown⟩ := h
  obtain ⟨rfl, hvalue⟩ := hvalue
  refine ⟨(Table.map_insert _ table name value).symm, fun bound found hfound => ?_⟩
  rw [Table.get?_insert] at hfound
  split at hfound
  · cases hfound
    exact hvalue
  · exact hknown bound found hfound

end Renaming.SameTable

namespace Store
variable {r : Renaming} {s t : Store} {table other : Table Value}

/-- The known objects and modules of the first store are those of the second. -/
structure Renumbers (r : Renaming) (s t : Store) : Prop where
  object_eq : ∀ id, r.knowsObject id → t.object (r.object id) = s.object id
  exports : ∀ id, r.knowsModule id → r.SameTable (s.exports id) (t.exports (r.module id))

theorem Mirrors.sameTable (h : s.Mirrors r t) {id : ModuleId} (hid : r.knowsModule id) :
    r.SameTable (s.exports id) (t.exports (r.module id)) := by
  refine ⟨Table.ext_get? fun name => ?_, h.exports_known id hid⟩
  rw [h.exports_eq id hid, Table.get?_map]

theorem Mirrors.renumbers (h : s.Mirrors r t) :
    s.Renumbers r t := ⟨h.object_eq, fun _ => h.sameTable⟩

theorem renumbers_empty (r : Renaming) : Store.empty.Renumbers r .empty where
  object_eq id _ := by simp [object, empty]
  exports id _ := by
    have hempty (id : ModuleId) : Store.empty.exports id = .empty := by simp [exports, empty]
    rw [hempty, hempty]
    exact .empty r

/-- Stores that mirror each other, and go on doing so when a module is added to both. -/
structure Aligned (r : Renaming) (s t : Store) : Prop extends s.Mirrors r t where
  freshModule : ∀ i, r.knowsModule ⟨s.modules.size + i⟩ ∧
    r.module ⟨s.modules.size + i⟩ = ⟨t.modules.size + i⟩

theorem Aligned.addModule (h : s.Aligned r t) (htable : r.SameTable table other) :
    (s.addModule table).2.Aligned r (t.addModule other).2 ∧
      r.SameValue (.module (s.addModule table).1) (.module (t.addModule other).1) := by
  have hnew : r.knowsModule (s.addModule table).1 ∧
      r.module (s.addModule table).1 = (t.addModule other).1 := h.freshModule 0
  -- No older module goes by the name of the new one, as known modules keep apart.
  have hiff : ∀ id, r.knowsModule id →
      (r.module id = (t.addModule other).1 ↔ id = (s.addModule table).1) := by
    intro id hid
    constructor
    · intro heq
      exact r.module_inj _ _ hid hnew.1 (heq.trans hnew.2.symm)
    · rintro rfl
      exact hnew.2
  have hexports : ∀ id, r.knowsModule id → r.SameTable ((s.addModule table).2.exports id)
      ((t.addModule other).2.exports (r.module id)) := by
    intro id hid
    rw [exports_addModule, exports_addModule]
    simp only [hiff id hid]
    split
    · exact htable
    · exact h.sameTable hid
  have haligned : (s.addModule table).2.Aligned r (t.addModule other).2 := {
    hasObject_iff := h.hasObject_iff
    object_eq := h.object_eq
    fresh := h.fresh
    exports_eq := fun id hid name => by rw [(hexports id hid).1, Table.get?_map]
    exports_known := fun id hid => (hexports id hid).2
    freshModule := fun i => by
      have hnext := h.freshModule (i + 1)
      simp only [Store.addModule, Array.size_push]
      rw [Nat.add_assoc, Nat.add_assoc, Nat.add_comm 1 i]
      exact hnext }
  exact ⟨haligned, congrArg Value.module hnew.2.symm, hnew.1⟩

/-- Sends what the first store adds next to what the second one adds next. Of the modules that are
there only the first so many are known, and they stay what they are. -/
def offset (shared : Nat) (s t : Store) : Renaming where
  object id := ⟨id.index - s.objects.size + t.objects.size⟩
  module id := if id.index < s.modules.size then id
    else ⟨id.index - s.modules.size + t.modules.size⟩
  knowsObject id := s.objects.size ≤ id.index
  knowsModule id := s.modules.size ≤ id.index ∨ (id.index < shared ∧ shared ≤ t.modules.size)
  object_inj := by
    rintro ⟨a⟩ ⟨b⟩ ha hb h
    rw [ObjectId.mk.injEq] at h ⊢
    dsimp only at ha hb h
    omega
  module_inj := by
    rintro ⟨a⟩ ⟨b⟩ ha hb h
    dsimp only at ha hb h
    split at h <;> split at h <;> rw [ModuleId.mk.injEq] at h ⊢ <;> omega

variable {shared : Nat}

theorem offset_module_of_lt (shared : Nat) (s t : Store) {id : ModuleId}
    (h : id.index < s.modules.size) : (s.offset shared t).module id = id := if_pos h

theorem offset_module_of_le (s t : Store) {id : ModuleId} (h : s.modules.size ≤ id.index) :
    (s.offset shared t).module id = ⟨id.index - s.modules.size + t.modules.size⟩ :=
  if_neg (Nat.not_lt.2 h)

theorem exports_eq_empty {id : ModuleId} (h : s.modules.size ≤ id.index) :
    s.exports id = .empty := by
  rw [exports, Array.getElem?_eq_none h]
  rfl

/-- Stores that share modules without identities are aligned by their offset. -/
theorem aligned_offset (hs : shared ≤ s.modules.size)
    (hshared : ∀ id : ModuleId, id.index < shared → t.exports id = s.exports id ∧
      ∀ name value, (s.exports id).get? name = some value → value.Inert) :
    s.Aligned (s.offset shared t) t := by
  have hexports : ∀ id, (s.offset shared t).knowsModule id → ∀ name,
      (t.exports ((s.offset shared t).module id)).get? name =
          ((s.exports id).get? name).map (Value.rename (s.offset shared t)) ∧
        ∀ value, (s.exports id).get? name = some value → value.Known (s.offset shared t) := by
    rintro id (hid | ⟨hid, -⟩) name
    · rw [offset_module_of_le s t hid, exports_eq_empty hid, exports_eq_empty (Nat.le_add_left _ _)]
      exact ⟨rfl, nofun⟩
    · obtain ⟨heq, hinert⟩ := hshared id hid
      rw [offset_module_of_lt shared s t (Nat.lt_of_lt_of_le hid hs), heq]
      obtain ⟨hrename, hknown⟩ := map_rename_of_inert (r := s.offset shared t) (hinert name)
      exact ⟨hrename.symm, hknown⟩
  have hnone : ∀ id, (s.offset shared t).knowsObject id → ¬ s.hasObject id ∧
      ¬ t.hasObject ((s.offset shared t).object id) := by
    intro id hid
    refine ⟨Nat.not_lt.2 hid, ?_⟩
    simp only [hasObject, offset]
    omega
  exact {
    hasObject_iff := fun id hid => iff_of_false (hnone id hid).2 (hnone id hid).1
    object_eq := fun id hid => by
      rw [object_of_not_hasObject (hnone id hid).1, object_of_not_hasObject (hnone id hid).2]
    fresh := fun i => by
      refine ⟨Nat.le_add_right _ _, ?_⟩
      simp only [offset, ObjectId.mk.injEq]
      omega
    exports_eq := fun id hid name => (hexports id hid name).1
    exports_known := fun id hid name => (hexports id hid name).2
    freshModule := fun i => by
      refine ⟨.inl (Nat.le_add_right _ _), ?_⟩
      rw [offset_module_of_le s t (Nat.le_add_right _ _), ModuleId.mk.injEq]
      dsimp only
      omega }

end Store

theorem Table.toList_map {α β : Type} (f : α → β) (table : Table α) :
    (table.map f).toList = table.toList.map fun e => (e.1, f e.2) := by
  exact congrFun List.filterMap_eq_map' table.entries

namespace Scope
variable {r : Renaming}

theorem seedAll_rename (s : Scope) (entries : List (String × Value)) :
    (s.seedAll entries).rename r =
      (s.rename r).seedAll (entries.map fun e => (e.1, e.2.rename r)) := by
  induction entries generalizing s with
  | nil => rfl
  | cons first more ih =>
    have hseed : (s.seed first.1 first.2).rename r =
        (s.rename r).seed first.1 (first.2.rename r) :=
      congrArg (Scope.mk · _) (Frame.insert_rename r s.file first.1 ⟨first.2, .seeded⟩).symm
    rw [List.map_cons]
    show ((s.seed first.1 first.2).seedAll more).rename r = _
    rw [ih, hseed]
    rfl

theorem sameTable_exports {s : Scope} (h : ∀ value, s.Binds value → value.Known r) :
    r.SameTable s.exports (s.rename r).exports := by
  refine ⟨Table.ext_get? fun name => ?_, fun name value hvalue => h value (binds_of_exports hvalue)⟩
  rw [Table.get?_map, exports, exports, Table.get?_filterMap, Table.get?_filterMap, rename,
    Frame.get?_rename]
  cases s.file.get? name with
  | none => rfl
  | some b =>
    rw [Option.map_some, Option.bind_some, Option.bind_some, Binding.rename]
    split <;> rfl

end Scope

variable {r : Renaming} {s t : Store} {table other : Table Value}

theorem Machine.mirrors_start_of_sameTable (h : s.Mirrors r t) (htable : r.SameTable table other) :
    (Machine.start table s).Mirrors r (Machine.start other t) where
  store := h
  scope_eq := by
    have hstandard : Scope.standard.rename r = Scope.standard := by
      refine Scope.rename_eq_self fun value hvalue => ?_
      rcases Scope.binds_seedAll hvalue with ⟨name, hname⟩ | hempty
      · exact (inert_of_mem_constants hname r).1
      · exact absurd hempty (Scope.not_binds_empty value)
    rw [start, start, htable.1, Table.toList_map, Scope.seedAll_rename, hstandard]
  scope_known value hvalue := by
    rcases binds_start hvalue with ⟨name, hname⟩ | ⟨name, hname⟩
    · exact htable.2 name value hname
    · exact (inert_of_mem_constants hname r).2
  scene_eq := rfl
  scene_known := nofun
  logs_eq := rfl
  notices_eq := rfl

/-- A program on aligned stores comes to results that show the same and export the same up to the
renaming, and to aligned stores. -/
theorem Program.run_aligned (h : s.Aligned r t) (htable : r.SameTable table other) (p : Program) :
    Run.Agree (fun a b => a.Same b ∧ r.SameTable a.exports b.exports ∧ a.store.Aligned r b.store)
      (p.run table s) (p.run other t) := by
  have hstart := Machine.mirrors_start_of_sameTable h.toMirrors htable
  rcases (hstart.foldlM p.statements).cases with ⟨m, n, hm, hn, hmn⟩ | ⟨stop, hm, hn⟩
  · have hs : p.run table s = .ok m.result := congrArg (Except.map Machine.result) hm
    have ht : p.run other t = .ok n.result := congrArg (Except.map Machine.result) hn
    have hexports : r.SameTable m.scope.exports n.scope.exports := by
      rw [hmn.scope_eq]
      exact Scope.sameTable_exports hmn.scope_known
    -- Running adds no modules, so those that are added next are the same as before.
    have hmodules : m.store.modules = s.modules := modules_of_run hs
    have hmodules' : n.store.modules = t.modules := modules_of_run ht
    have haligned : m.store.Aligned r n.store := {
      hmn.store with
      freshModule := by
        rw [hmodules, hmodules']
        exact h.freshModule }
    rw [hs, ht]
    exact .ok ⟨hmn.result, hexports, haligned⟩
  · have hs : p.run table s = .error stop := congrArg (Except.map Machine.result) hm
    have ht : p.run other t = .error stop := congrArg (Except.map Machine.result) hn
    rw [hs, ht]
    exact .error stop

end SceneScript
