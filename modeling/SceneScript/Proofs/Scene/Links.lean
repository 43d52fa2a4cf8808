import Mathlib.Logic.Relation
import SceneScript.Proofs.Module.Supply
import SceneScript.Proofs.Module.Units

namespace SceneScript

namespace Scene

def Links (scene : Scene) (child parent : String) : Prop :=
  ∃ o, scene.get? child = some o ∧ o.parent = some parent

/-- Objects are stored under their ids, parents are in the scene, and no object is above itself. -/
structure WellLinked (scene : Scene) : Prop where
  id_eq : ∀ name o, scene.get? name = some o → o.id = name
  parent_mem : ∀ child parent, scene.Links child parent → ∃ o, scene.get? parent = some o
  acyclic : ∀ name, ¬ Relation.TransGen scene.Links name name

end Scene

namespace Machine

/-- Objects of the scene are called by their keys. A parent that a record names is in the scene, as
a record that is newer. -/
structure Linked (m : Machine) : Prop where
  id_eq : ∀ name id, m.scene.get? name = some id → (m.store.object id).id = name
  parent_newer : ∀ name id parent, m.scene.get? name = some id →
    (m.store.object id).parent = some parent →
      ∃ newer, m.scene.get? parent = some newer ∧ id.index < newer.index

variable {m between after : Machine} {placed : List Placement}

/-- Links are kept where the records of the scene keep their ids and parents. -/
theorem Linked.of_objects (hm : m.Linked) (hscene : after.scene = m.scene)
    (hobject : ∀ name id, m.scene.get? name = some id →
      (after.store.object id).id = (m.store.object id).id ∧
        (after.store.object id).parent = (m.store.object id).parent) : after.Linked where
  id_eq := by
    intro name id hid
    rw [hscene] at hid
    rw [(hobject name id hid).1]
    exact hm.id_eq name id hid
  parent_newer := by
    intro name id parent hid hparent
    rw [hscene] at hid ⊢
    rw [(hobject name id hid).2] at hparent
    exact hm.parent_newer name id parent hid hparent

theorem Linked.grow (hm : m.Linked) (hgrounded : m.Grounded) (h : m.GrowsTo after) :
    after.Linked := by
  apply hm.of_objects h.scene_eq
  intro name id hid
  rw [h.store.object_eq id (hgrounded.scene name id hid)]
  exact ⟨rfl, rfl⟩

/-- The copy has no parent, and whatever it is made the parent of is older than it. -/
theorem Linked.place (hm : m.Linked) (hgrounded : m.Grounded) (name : String) (id : ObjectId) :
    (m.place name id).Linked := by
  have hcopy : (m.place name id).store.object m.store.nextId =
      { m.store.object id with id := name, parent := none } :=
    object_place_nextId (hgrounded.nextId_not_mem_childrenOf id)
  have hget : ∀ other, (m.place name id).scene.get? other =
      if other = name then some m.store.nextId else m.scene.get? other :=
    fun other => Table.get?_insert m.scene name other m.store.nextId
  constructor
  · intro other otherId hother
    rw [hget] at hother
    split at hother
    next heq =>
      cases hother
      rw [hcopy, heq]
    next =>
      rw [object_place (hgrounded.scene other otherId hother)]
      split <;> exact hm.id_eq other otherId hother
  · intro other otherId parent hother hparent
    rw [hget] at hother
    -- The new entry has no parent. An older one has the new entry as its parent, or keeps its own.
    split at hother
    next =>
      cases hother
      rw [hcopy] at hparent
      cases hparent
    next =>
      have hold : m.store.hasObject otherId := hgrounded.scene other otherId hother
      rcases Decidable.em (parent = name) with rfl | hne
      · exact ⟨m.store.nextId, by rw [hget, if_pos rfl], hold⟩
      · rw [object_place hold] at hparent
        split at hparent
        · exact absurd (Option.some.inj hparent).symm hne
        · obtain ⟨newer, hnewer, hlt⟩ := hm.parent_newer other otherId parent hother hparent
          exact ⟨newer, by rw [hget, if_neg hne, hnewer], hlt⟩

theorem Step.linked (h : Step m placed after) (hgrounded : m.Grounded) (hm : m.Linked) :
    after.Linked := by
  cases h with
  | evaluate hgrows => exact hm.grow hgrounded hgrows
  | @place between name confined id hgrows hid =>
    have hplaced := (hm.grow hgrounded hgrows).place (hgrounded.grow hgrows) name id
    exact ⟨hplaced.id_eq, hplaced.parent_newer⟩
  | change id hf =>
    refine hm.of_objects ?_ fun name other hother => ?_
    · rfl
    · exact links_modifyObject hf (hgrounded.scene name other hother)
  | _ => exact ⟨hm.id_eq, hm.parent_newer⟩

theorem Path.linked (h : Path m placed after) (hgrounded : m.Grounded) (hm : m.Linked) :
    after.Linked := by
  induction h with
  | start => exact hm
  | step hpath hstep ih => exact hstep.linked (hpath.grounded hgrounded) ih

theorem linked_start (modules : Table Value) (store : Store) : (start modules store).Linked where
  id_eq _ _ hid := nomatch hid
  parent_newer _ _ _ hid := nomatch hid

theorem get?_scene_result (m : Machine) (name : String) :
    m.result.scene.get? name = (m.scene.get? name).map m.store.object :=
  Table.get?_map m.store.object m.scene name

/-- Following links leads to newer and newer records. -/
theorem Linked.lt_of_transGen (hm : m.Linked) {child parent : String}
    (h : Relation.TransGen m.result.scene.Links child parent) :
    ∃ id newer, m.scene.get? child = some id ∧ m.scene.get? parent = some newer ∧
      id.index < newer.index := by
  have hstep : ∀ {child parent : String}, m.result.scene.Links child parent →
      ∃ id newer, m.scene.get? child = some id ∧ m.scene.get? parent = some newer ∧
        id.index < newer.index := by
    rintro child parent ⟨o, ho, hparent⟩
    rw [get?_scene_result, Option.map_eq_some_iff] at ho
    obtain ⟨id, hid, rfl⟩ := ho
    obtain ⟨newer, hnewer, hlt⟩ := hm.parent_newer child id parent hid hparent
    exact ⟨id, newer, hid, hnewer, hlt⟩
  -- Each link leads to a newer record, so the chain does.
  induction h with
  | single hlink => exact hstep hlink
  | tail _ hlink ih =>
    obtain ⟨id, middle, hid, hmiddle, hlt⟩ := ih
    obtain ⟨middle', newer, hmiddle', hnewer, hlt'⟩ := hstep hlink
    obtain rfl : middle = middle' := Option.some.inj (hmiddle.symm.trans hmiddle')
    exact ⟨id, newer, hid, hnewer, Nat.lt_trans hlt hlt'⟩

theorem Linked.wellLinked (hm : m.Linked) : m.result.scene.WellLinked where
  id_eq := by
    intro name o ho
    rw [get?_scene_result, Option.map_eq_some_iff] at ho
    obtain ⟨id, hid, rfl⟩ := ho
    exact hm.id_eq name id hid
  parent_mem := by
    intro child parent hlink
    obtain ⟨id, newer, -, hnewer, -⟩ := hm.lt_of_transGen (.single hlink)
    exact ⟨m.store.object newer, by rw [get?_scene_result, hnewer, Option.map_some]⟩
  acyclic := by
    intro name hcycle
    obtain ⟨id, newer, hid, hnewer, hlt⟩ := hm.lt_of_transGen hcycle
    obtain rfl : id = newer := Option.some.inj (hid.symm.trans hnewer)
    exact Nat.lt_irrefl _ hlt

end Machine

namespace Program
variable {p : Program} {modules : Table Value} {store : Store}

theorem Reaches.linked {m : Machine} (hsupplies : store.Supplies modules)
    (h : p.Reaches modules store m) : m.Linked := by
  obtain ⟨placed, hpath⟩ := h.leads
  exact hpath.linked (Machine.grounded_start hsupplies) (Machine.linked_start modules store)

/-- Whatever a program binds, groups and rebinds: the links of its scene are sound between any two
statements and at the end. -/
theorem scene_wellLinked (hsupplies : store.Supplies modules) :
    (∀ m, p.Reaches modules store m → m.result.scene.WellLinked) ∧
      ∀ r, p.run modules store = .ok r → r.scene.WellLinked := by
  constructor
  · intro m hm
    exact (hm.linked hsupplies).wellLinked
  · intro r hr
    obtain ⟨m, hm, rfl⟩ := exists_reaches_of_run hr
    exact (hm.linked hsupplies).wellLinked

/-- Two groups that contain each other, and one that contains itself. -/
theorem scene_wellLinked_of_mutual_groups :
    let bind (name child : String) := Stmt.assign default name false (.group default [child])
    let p : Program := ⟨[bind "a" "b", bind "b" "a", bind "a" "b", bind "g" "g", bind "g" "g"]⟩
    ∃ r, p.run .empty .empty = .ok r ∧ r.scene.WellLinked ∧ r.scene.Links "b" "a" := by
  intro bind p
  have hparent : (p.run .empty .empty).toOption.bind
      (fun r => (r.scene.get? "b").bind (·.parent)) = some "a" := by decide +kernel
  obtain ⟨r, hr, o, ho, hoparent⟩ : ∃ r, (p.run .empty .empty).toOption = some r ∧
      r.scene.Links "b" "a" := by simpa only [Option.bind_eq_some_iff, Scene.Links] using hparent
  cases hrun : p.run .empty .empty with
  | error stop =>
    rw [hrun] at hr
    cases hr
  | ok result =>
    rw [hrun] at hr
    cases hr
    exact ⟨r, rfl, (scene_wellLinked Store.supplies_empty).2 r hrun, o, ho, hoparent⟩

end Program

theorem Scene.wellLinked_empty : Scene.WellLinked .empty where
  id_eq _ _ h := nomatch h
  parent_mem := by
    rintro child parent ⟨o, ho, -⟩
    cases ho
  acyclic := by
    intro name hcycle
    obtain ⟨parent, ⟨o, ho, -⟩, -⟩ := Relation.TransGen.head'_iff.1 hcycle
    cases ho

namespace Module

theorem Compilation.wellLinked_of_by {setting : Setting} {depth : Nat} {c : Compilation}
    (h : c.By (compileUnit setting depth)) (hclosed : c.before.store.Closed) :
    c.result.scene.WellLinked := by
  cases depth with
  | zero => cases h
  | succ depth =>
    rcases compileWith_eq_ok h with ⟨d, -, hresult, -⟩ |
      ⟨p, table, notices, between, ran, -, hresolve, hrun, hresult, -⟩ <;> rw [hresult]
    · exact Scene.wellLinked_empty
    · obtain ⟨hsupplies, -⟩ := supplies_of_resolveImports (supplying_compileUnit setting depth)
        hresolve (.empty hclosed)
      obtain ⟨m, hm, rfl⟩ := Program.exists_reaches_of_run hrun
      exact (hm.linked hsupplies).wellLinked

/-- The scene of a compile is well-linked, whatever the source and its modules do. -/
theorem Loader.wellLinked_of_compileRoot {l l' : Loader} {name source : String}
    {files : Table String}
    {r : Result} (h : l.compileRoot name source files = .ok (r, l')) : r.scene.WellLinked := by
  obtain ⟨root, -, rfl, hbefore, hby⟩ := exists_root_of_compileRoot h
  apply Compilation.wellLinked_of_by hby
  rw [hbefore]
  exact Store.closed_addLibraries Store.supplies_empty.closed _

end Module
end SceneScript
