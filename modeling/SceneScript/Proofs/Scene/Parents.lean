import SceneScript.Proofs.Scene.Entries
import SceneScript.Proofs.Scene.Links

namespace SceneScript

/-- The entry `parent` of the scene is a group that has `child` among its children. -/
def Scene.Lists (scene : Scene) (parent child : String) : Prop :=
  ∃ o, scene.get? parent = some o ∧ o.isGroup = true ∧ child ∈ o.children

theorem Object.isGroup_of_mem_children {o : Object} {child : String} (h : child ∈ o.children) :
    o.isGroup = true := by
  rw [children] at h
  rw [isGroup]
  cases hshape : o.shape with
  | group names => rfl
  | _ =>
    rw [hshape] at h
    cases h

namespace Machine
variable {store : Store} {m between after : Machine} {placed new : List Placement}

theorem lists_result_iff {parent child : String} {id : ObjectId}
    (hid : m.scene.get? parent = some id) :
    m.result.scene.Lists parent child ↔ child ∈ (m.store.object id).children := by
  have hentry : m.result.scene.get? parent = some (m.store.object id) := by
    rw [get?_scene_result, hid, Option.map_some]
  constructor
  · rintro ⟨o, ho, -, hmem⟩
    rw [hentry] at ho
    cases ho
    exact hmem
  · intro hmem
    exact ⟨_, hentry, Object.isGroup_of_mem_children hmem, hmem⟩

/-- A name that is bound to a record of this run was bound when the record was placed, and a placed
record that has a parent is listed by a newer one, which was placed under the name of that
parent. -/
structure Adopted (store : Store) (placed : List Placement) (m : Machine) : Prop where
  named : ∀ name id, m.scope.BindsAs name (.object id) → ¬ store.hasObject id →
    ∃ q ∈ placed, q.name = name ∧ q.object = id
  listed : ∀ q ∈ placed, ∀ parent, (m.store.object q.object).parent = some parent →
    ∃ adopter ∈ placed, adopter.name = parent ∧ q.object.index < adopter.object.index ∧
      q.name ∈ (m.store.object adopter.object).children

/-- Parents and children of the records are as before, and so are the objects that names lead to. -/
theorem Adopted.of_records (hm : Adopted store placed m) (hplaced : Placed store placed m)
    (hscope : ∀ name id, after.scope.BindsAs name (.object id) → m.scope.BindsAs name (.object id))
    (hparent : ∀ id, m.store.hasObject id →
      (after.store.object id).parent = (m.store.object id).parent)
    (hspares : m.Spares after) : Adopted store placed after where
  named name id hname := hm.named name id (hscope name id hname)
  listed := by
    intro q hq parent hq'
    rw [hparent _ (hplaced.new q hq).2.1] at hq'
    obtain ⟨adopter, hadopter, hname, hnewer, hlists⟩ := hm.listed q hq parent hq'
    have hchildren : (after.store.object adopter.object).children =
        (m.store.object adopter.object).children :=
      congrArg Shape.children (hspares.shape_eq _ (hplaced.new adopter hadopter).2.1)
    exact ⟨adopter, hadopter, hname, hnewer, hchildren ▸ hlists⟩

theorem Adopted.grow (hm : Adopted store placed m) (hplaced : Placed store placed m)
    (h : m.GrowsTo after) : Adopted store placed after := by
  refine hm.of_records hplaced (fun name id hname => ?_) (fun id hid => ?_) h.spares
  · exact h.scope_eq ▸ hname
  · rw [h.store.object_eq id hid]

/-- What a placement adopts was placed under the name by which the new group lists it. -/
theorem Adopted.mem_children (hm : Adopted store placed m) (hplaced : Placed store placed m)
    {q : Placement} (hq : q ∈ placed) {id : ObjectId} (h : q.object ∈ m.childrenOf id) :
    q.name ∈ (m.store.object id).children := by
  obtain ⟨child, hchild, hbound⟩ := List.mem_filterMap.1 h
  obtain ⟨value, hvalue, hobject⟩ := Option.bind_eq_some_iff.1 hbound
  obtain rfl : value = .object q.object := Value.eq_object_of_object? hobject
  obtain ⟨q', hq', rfl, hsame⟩ :=
    hm.named child q.object (Scope.bindsAs_of_lookup? hvalue) (hplaced.new q hq).1
  obtain rfl : q' = q := hplaced.eq_of_object_eq hq' hq hsame
  exact hchild

theorem Adopted.place (hm : Adopted store placed m) (hplaced : Placed store placed m)
    (hgrounded : m.Grounded) (name : String) (confined : Bool) (id : ObjectId) :
    Adopted store (⟨name, m.store.nextId, m.scope.reachesFile name confined⟩ :: placed)
      ((m.place name id).bind name confined (.object m.store.nextId)) := by
  have hcopy : (m.place name id).store.object m.store.nextId =
      { m.store.object id with id := name, parent := none } :=
    object_place_nextId (hgrounded.nextId_not_mem_childrenOf id)
  constructor
  · intro other otherId hother hnew
    rcases Scope.bindsAs_bind hother with ⟨rfl, heq⟩ | hold
    · cases heq
      exact ⟨_, List.mem_cons_self, rfl, rfl⟩
    · obtain ⟨q, hq, hq'⟩ := hm.named other otherId hold hnew
      exact ⟨q, List.mem_cons_of_mem _ hq, hq'⟩
  · intro q hq parent hparent
    rw [Machine.bind] at hparent ⊢
    -- The new record has no parent. An older one is listed by the new one, or has the parent it
    -- had.
    rcases List.mem_cons.1 hq with rfl | hq
    · rw [hcopy] at hparent
      cases hparent
    have hold : m.store.hasObject q.object := (hplaced.new q hq).2.1
    rw [object_place hold] at hparent
    split at hparent
    next hchild =>
      cases hparent
      refine ⟨_, List.mem_cons_self, rfl, hold, ?_⟩
      rw [hcopy]
      exact hm.mem_children hplaced hq hchild
    next =>
      obtain ⟨adopter, hadopter, hname, hnewer, hlists⟩ := hm.listed q hq parent hparent
      refine ⟨adopter, List.mem_cons_of_mem _ hadopter, hname, hnewer, ?_⟩
      rw [object_place (hplaced.new adopter hadopter).2.1]
      split <;> exact hlists

theorem Adopted.step (hm : Adopted store placed m) (hplaced : Placed store placed m)
    (hgrounded : m.Grounded) (h : Step m new after) (hspares : m.Spares after) :
    Adopted store (new ++ placed) after := by
  cases h with
  | evaluate hgrows => exact hm.grow hplaced hgrows
  | enter =>
    exact hm.of_records hplaced (fun _ _ => Scope.bindsAs_push) (fun _ _ => rfl) hspares
  | leave => exact hm.of_records hplaced (fun _ _ => Scope.bindsAs_pop) (fun _ _ => rfl) hspares
  | bind name confined hvalue =>
    refine hm.of_records hplaced (fun other id hother => ?_) (fun _ _ => rfl) hspares
    rcases Scope.bindsAs_bind hother with ⟨-, rfl⟩ | hold
    · cases hvalue
    · exact hold
  | @place between name confined id hgrows hid =>
    exact (hm.grow hplaced hgrows).place (hplaced.grow hgrows)
      (hgrounded.grow hgrows) name confined id
  | change id hf =>
    refine hm.of_records hplaced (fun _ _ => ?_) (fun other hother => ?_) hspares
    · exact fun hname => hname
    · exact (links_modifyObject hf hother).2
  | _ => exact hm.of_records hplaced (fun _ _ hname => hname) (fun _ _ => rfl) hspares

variable {modules : Table Value}

theorem adopted_start (hsupplies : store.Supplies modules) :
    Adopted store [] (start modules store) where
  named name id hname hnew :=
    absurd ((grounded_start hsupplies).scope _ (Scope.binds_iff.2 ⟨name, hname⟩) id rfl) hnew
  listed _ hq := nomatch hq

theorem adopted_of_route (hsupplies : store.Supplies modules)
    (h : (start modules store).Route placed m) : Adopted store placed m := by
  -- Only the placement of a group gives parents, and it gives them to the children it lists.
  induction h with
  | start => exact adopted_start hsupplies
  | step hroute hstep hspares ih =>
    have hpath := hroute.path
    exact ih.step (placed_of_path hsupplies hpath) (hpath.grounded (grounded_start hsupplies)) hstep
      hspares

/-- The last placement of a name is no older than any other placement of the name. -/
theorem Placed.le_of_last? (hm : Placed store placed m) {p last : Placement} (hp : p ∈ placed)
    (hlast : Placement.last? p.name placed = some last) : p.object.index ≤ last.object.index := by
  obtain ⟨-, before, rest, rfl, hbefore⟩ := List.find?_eq_some_iff_append.1 hlast
  obtain ⟨-, hrest, -⟩ := List.pairwise_append.1 hm.newer
  rcases List.mem_append.1 hp with hmem | hmem
  · have hother := hbefore p hmem
    simp at hother
  · rcases List.mem_cons.1 hmem with rfl | hmem
    · exact Nat.le_refl _
    · exact Nat.le_of_lt ((List.pairwise_cons.1 hrest).1 p hmem)

/-- The group that adopted a record of the scene, and when the entry of its name still lists it. -/
theorem Adopted.exists_adopter (hm : Adopted store placed m) (hplaced : Placed store placed m)
    {child parent : String} (hlink : m.result.scene.Links child parent) :
    ∃ adopter ∈ placed, adopter.name = parent ∧
      child ∈ (m.store.object adopter.object).children ∧
      (¬ m.result.scene.Lists parent child ↔
        ∃ last, Placement.last? parent placed = some last ∧
          adopter.object.index < last.object.index ∧
          child ∉ (m.store.object last.object).children) := by
  obtain ⟨o, ho, hparent⟩ := hlink
  rw [get?_scene_result, hplaced.scene, Option.map_map, Option.map_eq_some_iff] at ho
  obtain ⟨q, hq, rfl⟩ := ho
  have hname := List.find?_some hq
  obtain rfl : q.name = child := of_decide_eq_true hname
  obtain ⟨adopter, hadopter, rfl, -, hlists⟩ :=
    hm.listed q (List.mem_of_find?_eq_some hq) parent hparent
  refine ⟨adopter, hadopter, rfl, hlists, ?_⟩
  obtain ⟨last, hlast⟩ : ∃ last, Placement.last? adopter.name placed = some last := by
    rw [← Option.isSome_iff_exists, Placement.last?, List.find?_isSome]
    exact ⟨adopter, hadopter, by simp⟩
  have hentry : m.scene.get? adopter.name = some last.object := by
    rw [hplaced.scene, hlast, Option.map_some]
  rw [lists_result_iff hentry]
  -- The record of the adopter lists the child, so an entry that does not is another and newer
  -- record.
  constructor
  · intro hunlisted
    have hne : adopter.object ≠ last.object := fun heq => hunlisted (heq ▸ hlists)
    have hindex : adopter.object.index ≠ last.object.index := fun heq =>
      hne (congrArg ObjectId.mk heq)
    exact ⟨last, hlast, Nat.lt_of_le_of_ne (hplaced.le_of_last? hadopter hlast) hindex, hunlisted⟩
  · rintro ⟨last', hlast', -, hunlisted⟩
    obtain rfl : last = last' := Option.some.inj (hlast.symm.trans hlast')
    exact hunlisted

end Machine

namespace Program
variable {p : Program} {modules : Table Value} {store : Store} {m : Machine}

/-- Every parent link of the scene goes back to a group of that name that was placed and lists the
child. It is not mutual any more exactly if the name was placed again since, and last as something
that does not list the child: whatever else a program binds, copies or rebinds keeps it mutual. -/
theorem scene_lists_linked_iff (hsupplies : store.Supplies modules)
    (h : p.Reaches modules store m) :
    (∃ placed, (Machine.start modules store).Route placed m) ∧
    ∀ placed, (Machine.start modules store).Route placed m →
      ∀ child parent, m.result.scene.Links child parent →
        ∃ adopter ∈ placed, adopter.name = parent ∧
          child ∈ (m.store.object adopter.object).children ∧
          (¬ m.result.scene.Lists parent child ↔
            ∃ last, Placement.last? parent placed = some last ∧
              adopter.object.index < last.object.index ∧
              child ∉ (m.store.object last.object).children) := by
  refine ⟨h.moves, fun placed hroute child parent hlink => ?_⟩
  exact (Machine.adopted_of_route hsupplies hroute).exists_adopter
    (Machine.placed_of_path hsupplies hroute.path) hlink

/-- A mesh takes the name of a group, and the child of the group keeps it as its parent. -/
theorem scene_links_mesh :
    let mesh := Expr.mesh default [] []
    let bind (name : String) (e : Expr) := Stmt.assign default name false e
    let p : Program := ⟨[bind "a" mesh, bind "g" (.group default ["a"]), bind "g" mesh]⟩
    ∃ m, p.Reaches .empty .empty m ∧ m.result.scene.Links "a" "g" ∧
      ¬ m.result.scene.Lists "g" "a" ∧
      ∃ placed adopter last, (Machine.start .empty .empty).Route placed m ∧ adopter ∈ placed ∧
        adopter.name = "g" ∧ Placement.last? "g" placed = some last ∧
        adopter.object.index < last.object.index := by
  intro mesh bind p
  have hend : (p.statements.foldlM Machine.runStatement (.start .empty .empty)).toOption.map
      (fun m => ((m.result.scene.get? "a").bind (·.parent), m.scene.get? "g",
        (m.store.object ⟨5⟩).children)) = some (some "g", some ⟨5⟩, []) := by
    decide +kernel
  cases hrun : p.statements.foldlM Machine.runStatement (.start .empty .empty) with
  | error stop =>
    rw [hrun] at hend
    cases hend
  | ok m =>
    rw [hrun] at hend
    obtain ⟨hparent, hentry⟩ := Prod.ext_iff.1 (Option.some.inj hend)
    obtain ⟨hscene, hchildren⟩ : m.scene.get? "g" = some ⟨5⟩ ∧ (m.store.object ⟨5⟩).children = [] :=
      Prod.ext_iff.1 hentry
    have hreaches : p.Reaches .empty .empty m := ⟨p.statements, [], by simp, hrun⟩
    have hlink : m.result.scene.Links "a" "g" := Option.bind_eq_some_iff.1 hparent
    have hlists : ¬ m.result.scene.Lists "g" "a" := by
      rw [Machine.lists_result_iff hscene]
      intro hmem
      exact List.not_mem_nil (hchildren ▸ hmem)
    obtain ⟨⟨placed, hroute⟩, hall⟩ := scene_lists_linked_iff Store.supplies_empty hreaches
    obtain ⟨adopter, hadopter, hname, -, hiff⟩ := hall placed hroute "a" "g" hlink
    obtain ⟨last, hlast, hnewer, -⟩ := hiff.1 hlists
    exact ⟨m, hreaches, hlink, hlists, placed, adopter, last, hroute, hadopter,
      hname, hlast, hnewer⟩

end Program
end SceneScript
