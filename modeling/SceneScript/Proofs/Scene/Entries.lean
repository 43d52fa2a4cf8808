import SceneScript.Proofs.Run.Path

namespace SceneScript

namespace Placement

def last? (name : String) (placed : List Placement) : Option Placement :=
  placed.find? fun p => p.name = name

def lastInFile? (name : String) (placed : List Placement) : Option Placement :=
  placed.find? fun p => p.name = name && p.inFile

variable {name : String} {placed : List Placement} {p : Placement}

theorem lastInFile?_eq_some (h : lastInFile? name placed = some p) :
    p ∈ placed ∧ p.name = name ∧ p.inFile = true := by
  have hmatch := List.find?_some h
  simp only [Bool.and_eq_true, decide_eq_true_eq] at hmatch
  exact ⟨List.mem_of_find?_eq_some h, hmatch⟩

/-- If the last placement of a name was made in the file frame, it is also the last one there. -/
theorem lastInFile?_eq_of_last? (h : last? name placed = some p) (hfile : p.inFile = true) :
    lastInFile? name placed = some p := by
  unfold last? at h
  unfold lastInFile?
  induction placed with
  | nil => cases h
  | cons first more ih =>
    rw [List.find?_cons] at h ⊢
    rcases Decidable.em (first.name = name) with heq | hne
    · simp only [heq, decide_true] at h ⊢
      cases h
      simp [hfile]
    · simp only [hne, decide_false] at h ⊢
      exact ih h

end Placement

namespace Machine

def fileObject? (m : Machine) (name : String) : Option ObjectId :=
  ((m.scope.file.get? name).map (·.value)).bind Value.object?

theorem fileObject?_bind (m : Machine) (name other : String) (confined : Bool) (value : Value) :
    (m.bind name confined value).fileObject? other =
      if m.scope.reachesFile name confined ∧ other = name then value.object?
      else m.fileObject? other := by
  unfold fileObject?
  rw [Machine.bind, Scope.value_get?_file_bind]
  rcases Bool.eq_false_or_eq_true (m.scope.reachesFile name confined) with hfile | hfile
  · rw [if_pos hfile]
    rcases Decidable.em (other = name) with heq | hne
    · rw [if_pos heq, if_pos ⟨hfile, heq⟩, Option.bind_some]
    · rw [if_neg hne, if_neg fun h => hne h.2]
  · rw [if_neg (by simp [hfile]), if_neg (by simp [hfile])]

/-- What a run has placed since a store: every placement is a new record called by its name, the
scene shows the last placements, and the file frame has those that were made in it last. -/
structure Placed (store : Store) (placed : List Placement) (m : Machine) : Prop where
  new : ∀ p ∈ placed, ¬ store.hasObject p.object ∧ m.store.hasObject p.object ∧
    (m.store.object p.object).id = p.name
  newer : placed.Pairwise fun p older => older.object.index < p.object.index
  scene : ∀ name, m.scene.get? name = (Placement.last? name placed).map (·.object)
  file : ∀ name id, m.fileObject? name = some id → ¬ store.hasObject id →
    (Placement.lastInFile? name placed).map (·.object) = some id

variable {store : Store} {m between after : Machine} {placed new : List Placement}

theorem Placed.of_objects (hm : Placed store placed m) (hscene : after.scene = m.scene)
    (hscope : after.scope.file = m.scope.file)
    (hobject : ∀ id, m.store.hasObject id → after.store.hasObject id ∧
      (after.store.object id).id = (m.store.object id).id) : Placed store placed after where
  new := by
    intro p hp
    obtain ⟨hfresh, hold, hname⟩ := hm.new p hp
    obtain ⟨hhas, hid⟩ := hobject p.object hold
    exact ⟨hfresh, hhas, hid.trans hname⟩
  newer := hm.newer
  scene := by
    rw [hscene]
    exact hm.scene
  file := by
    unfold fileObject?
    rw [hscope]
    exact hm.file

theorem Placed.grow (hm : Placed store placed m) (h : m.GrowsTo after) :
    Placed store placed after := by
  refine hm.of_objects h.scene_eq (congrArg Scope.file h.scope_eq) fun id hid => ?_
  exact ⟨h.store.hasObject hid, congrArg Object.id (h.store.object_eq id hid)⟩

/-- A value that is no object takes a name away from the file frame at most. -/
theorem Placed.bind (hm : Placed store placed m) (name : String) (confined : Bool) {value : Value}
    (hvalue : value.object? = none) : Placed store placed (m.bind name confined value) where
  new := hm.new
  newer := hm.newer
  scene := hm.scene
  file := by
    intro other id hid
    rw [fileObject?_bind] at hid
    split at hid
    · rw [hvalue] at hid
      cases hid
    · exact hm.file other id hid

theorem Placed.place (hm : Placed store placed m) (hgrounded : m.Grounded)
    (hstore : store.objects.size ≤ m.store.objects.size) (name : String) (confined : Bool)
    (id : ObjectId) :
    Placed store (⟨name, m.store.nextId, m.scope.reachesFile name confined⟩ :: placed)
      ((m.place name id).bind name confined (.object m.store.nextId)) where
  new := by
    intro p hp
    rcases List.mem_cons.1 hp with rfl | hp
    · refine ⟨Nat.not_lt.2 hstore, hasObject_place.2 (.inr rfl), ?_⟩
      exact congrArg Object.id (object_place_nextId (hgrounded.nextId_not_mem_childrenOf id))
    · obtain ⟨hfresh, hold, hname⟩ := hm.new p hp
      refine ⟨hfresh, hasObject_place.2 (.inl hold), ?_⟩
      rw [Machine.bind, object_place hold]
      split <;> exact hname
  newer := List.pairwise_cons.2 ⟨fun older holder => (hm.new older holder).2.1, hm.newer⟩
  scene := by
    intro other
    rw [Machine.bind, Machine.place, Table.get?_insert, hm.scene, Placement.last?, Placement.last?,
      List.find?_cons]
    rcases Decidable.em (other = name) with rfl | hne
    · simp
    · simp [hne, Ne.symm hne]
  file := by
    intro other otherId hid hfresh
    have hscope : (m.place name id).scope = m.scope := rfl
    have hfile : (m.place name id).fileObject? other = m.fileObject? other := rfl
    rw [fileObject?_bind, hscope, hfile] at hid
    rw [Placement.lastInFile?, List.find?_cons]
    -- A binding of another name, or one that stays in a block, leaves the file frame as it was.
    rcases Decidable.em (m.scope.reachesFile name confined ∧ other = name) with hreach | hreach
    · rw [if_pos hreach] at hid
      cases hid
      simp [hreach.1, hreach.2]
    · rw [if_neg hreach] at hid
      have hskip : (decide (name = other) && m.scope.reachesFile name confined) = false := by
        cases hfile : m.scope.reachesFile name confined with
        | false => exact Bool.and_false _
        | true =>
          have hne : name ≠ other := fun heq => hreach ⟨hfile, heq.symm⟩
          simp [hne]
      dsimp only
      rw [hskip]
      exact hm.file other otherId hid hfresh

theorem Placed.step (hm : Placed store placed m) (hgrounded : m.Grounded)
    (hstore : store.objects.size ≤ m.store.objects.size) (h : Step m new after) :
    Placed store (new ++ placed) after := by
  cases h with
  | evaluate hgrows => exact hm.grow hgrows
  | bind name confined hvalue => exact hm.bind name confined hvalue
  | @place between name confined id hgrows hid =>
    exact (hm.grow hgrows).place (hgrounded.grow hgrows)
      (Nat.le_trans hstore hgrows.store.size_le) name confined id
  | change id hf =>
    refine hm.of_objects ?_ ?_ fun other hother => ?_
    · rfl
    · rfl
    · exact ⟨(Store.hasObject_modifyObject m.store id other _).2 hother,
        (links_modifyObject hf hother).1⟩
  | _ => exact ⟨hm.new, hm.newer, hm.scene, hm.file⟩

variable {modules : Table Value}

theorem placed_start (hsupplies : store.Supplies modules) :
    Placed store [] (start modules store) where
  new _ hp := nomatch hp
  newer := .nil
  scene _ := rfl
  file := by
    intro name id hid hfresh
    obtain ⟨value, hvalue, hobject⟩ := Option.bind_eq_some_iff.1 hid
    obtain ⟨b, hb, rfl⟩ := Option.map_eq_some_iff.1 hvalue
    have hbinds : (start modules store).scope.Binds b.value :=
      ⟨_, List.mem_append_right _ (List.mem_singleton_self _), name, b, hb, rfl⟩
    exact absurd ((grounded_start hsupplies).scope _ hbinds id hobject) hfresh

theorem placed_of_path (hsupplies : store.Supplies modules)
    (h : (start modules store).Path placed m) : Placed store placed m := by
  induction h with
  | start => exact placed_start hsupplies
  | step hpath hstep ih =>
    exact ih.step (hpath.grounded (grounded_start hsupplies)) hpath.size_le hstep

/-- Two placements of one record are the same placement. -/
theorem Placed.eq_of_object_eq (hm : Placed store placed m) {p q : Placement} (hp : p ∈ placed)
    (hq : q ∈ placed) (h : p.object = q.object) : p = q := by
  have hnewer := hm.newer
  clear hm
  induction placed with
  | nil => cases hp
  | cons first more ih =>
    obtain ⟨hfirst, hmore⟩ := List.pairwise_cons.1 hnewer
    rcases List.mem_cons.1 hp with rfl | hp' <;> rcases List.mem_cons.1 hq with rfl | hq'
    · rfl
    · exact absurd (hfirst q hq') (by rw [h]; exact Nat.lt_irrefl _)
    · exact absurd (hfirst p hp') (by rw [h]; exact Nat.lt_irrefl _)
    · exact ih hp' hq' hmore

/-- The scene shows the object of the file frame exactly if the name was placed last for it. -/
theorem Placed.scene_eq_iff (hm : Placed store placed m) {name : String} {id : ObjectId}
    (hid : m.fileObject? name = some id) (hown : ¬ store.hasObject id) :
    ∃ p, Placement.last? name placed = some p ∧
      (m.scene.get? name = some id ∧ (m.store.object id).id = name ↔ p.inFile = true) := by
  obtain ⟨q, hq, rfl⟩ := Option.map_eq_some_iff.1 (hm.file name id hid hown)
  obtain ⟨hmem, hname, hfile⟩ := Placement.lastInFile?_eq_some hq
  obtain ⟨p, hp⟩ : ∃ p, Placement.last? name placed = some p := by
    rw [← Option.isSome_iff_exists, Placement.last?, List.find?_isSome]
    exact ⟨q, hmem, by simp [hname]⟩
  have hscene : m.scene.get? name = some p.object := by rw [hm.scene, hp, Option.map_some]
  refine ⟨p, hp, ?_⟩
  -- `q` is the last placement in the file frame and `p` the last of all; they are the same or not.
  constructor
  · rintro ⟨hentry, -⟩
    have hobject : p.object = q.object := Option.some.inj (hscene.symm.trans hentry)
    obtain rfl := hm.eq_of_object_eq (List.mem_of_find?_eq_some hp) hmem hobject
    exact hfile
  · intro hlast
    obtain rfl : p = q :=
      Option.some.inj ((Placement.lastInFile?_eq_of_last? hp hlast).symm.trans hq)
    exact ⟨hscene, (hm.new p hmem).2.2.trans hname⟩

end Machine

namespace Program
variable {p : Program} {modules : Table Value} {store : Store} {m : Machine}

/-- What a name of the file frame is bound to, if the program bound it to an object itself, is what
the scene shows under that name exactly if the name was placed last in the file frame: a block that
binds the name takes the entry of the scene and keeps it when it ends. -/
theorem scene_shows_file_object_iff (hsupplies : store.Supplies modules)
    (h : p.Reaches modules store m) :
    (∃ placed, (Machine.start modules store).Path placed m) ∧
    ∀ placed, (Machine.start modules store).Path placed m →
      ∀ name id, m.fileObject? name = some id → ¬ store.hasObject id →
        ∃ q, Placement.last? name placed = some q ∧
          (m.scene.get? name = some id ∧ (m.store.object id).id = name ↔ q.inFile = true) := by
  refine ⟨h.leads, fun placed hpath name id hid hown => ?_⟩
  exact (Machine.placed_of_path hsupplies hpath).scene_eq_iff hid hown

/-- A local group takes the entry of the scene from the group of the file. -/
theorem scene_shows_local_object :
    let bind (confined : Bool) := Stmt.assign default "x" confined (.group default [])
    let p : Program := ⟨[bind false,
      .branch default (.reference default "true" []) [bind true] none]⟩
    ∃ m id, p.Reaches .empty .empty m ∧ m.fileObject? "x" = some id ∧ m.scene.get? "x" ≠ some id ∧
      ∃ placed q, (Machine.start .empty .empty).Path placed m ∧
        Placement.last? "x" placed = some q ∧ q.inFile = false := by
  intro bind p
  have hend : (p.statements.foldlM Machine.runStatement (.start .empty .empty)).toOption.map
      (fun m => (m.fileObject? "x", m.scene.get? "x")) = some (some ⟨1⟩, some ⟨3⟩) := by
    decide +kernel
  cases hrun : p.statements.foldlM Machine.runStatement (.start .empty .empty) with
  | error stop =>
    rw [hrun] at hend
    cases hend
  | ok m =>
    rw [hrun] at hend
    obtain ⟨hfile, hscene⟩ : m.fileObject? "x" = some ⟨1⟩ ∧ m.scene.get? "x" = some ⟨3⟩ :=
      Prod.ext_iff.1 (Option.some.inj hend)
    have hreaches : p.Reaches .empty .empty m := ⟨p.statements, [], by simp, hrun⟩
    have hne : m.scene.get? "x" ≠ some ⟨1⟩ := by
      rw [hscene]
      decide
    obtain ⟨⟨placed, hpath⟩, hall⟩ := scene_shows_file_object_iff Store.supplies_empty hreaches
    obtain ⟨q, hq, hiff⟩ := hall placed hpath "x" ⟨1⟩ hfile (Nat.not_lt_zero 1)
    refine ⟨m, ⟨1⟩, hreaches, hfile, hne, placed, q, hpath, hq, ?_⟩
    exact Bool.eq_false_iff.2 fun hlast => hne (hiff.2 hlast).1

end Program
end SceneScript
