import SceneScript.Proofs.Json
import SceneScript.Scene.Written

namespace SceneScript

/-- Whether the numbers of a vector are finite. -/
structure Vector3.IsFinite (v : Vector3) : Prop where
  x : v.x.isFinite = true
  y : v.y.isFinite = true
  z : v.z.isFinite = true

structure Material.IsFinite (m : Material) : Prop where
  roughness : m.roughness.isFinite = true
  metalness : m.metalness.isFinite = true
  opacity : m.opacity.isFinite = true

def Face.IsFinite (f : Face) : Prop := ∀ m ∈ f.material, m.IsFinite

inductive Shape.IsFinite : Shape → Prop
  | mesh {vertices : List Vector3} {faces : List Face} : (∀ v ∈ vertices, v.IsFinite) →
    (∀ f ∈ faces, f.IsFinite) → IsFinite (mesh vertices faces)
  | pyramid {vertices : List Vector3} {height : Float} {direction : Direction} :
    (∀ v ∈ vertices, v.IsFinite) → height.isFinite = true →
    IsFinite (pyramid vertices height direction)
  | group {children : List String} : IsFinite (group children)

structure Object.IsFinite (o : Object) : Prop where
  position : o.position.IsFinite
  rotation : o.rotation.IsFinite
  scale : o.scale.IsFinite
  material : ∀ m ∈ o.material, m.IsFinite
  shape : o.shape.IsFinite

def Scene.IsFinite (scene : Scene) : Prop := ∀ entry ∈ scene.toList, entry.2.IsFinite

theorem Vector3.isFinite_toJson {v : Vector3} (h : v.IsFinite) : v.toJson.IsFinite := by
  refine .object ?_
  simp only [List.forall_mem_cons]
  exact ⟨.float h.x, .float h.y, .float h.z, nofun⟩

theorem Vector3.toJson_injective {v w : Vector3} (h : v.toJson = w.toJson) : v = w := by
  obtain ⟨x, y, z⟩ := v
  obtain ⟨x', y', z'⟩ := w
  simpa [toJson] using h

theorem Material.isFinite_toJson {m : Material} (h : m.IsFinite) : m.toJson.IsFinite := by
  obtain ⟨color, roughness, metalness, opacity, emissive, wireframe⟩ := m
  refine .object ?_
  simp only [List.forall_mem_append, List.forall_mem_cons]
  refine ⟨⟨⟨.string _, .float h.roughness, .float h.metalness, .float h.opacity, nofun⟩, ?_⟩,
    .bool _, nofun⟩
  cases emissive with
  | none => exact nofun
  | some color => exact List.forall_mem_singleton.2 (.string color)

/-- A missing emissive color is told by the member that is there in its place. -/
theorem Material.toJson_injective {m n : Material} (h : m.toJson = n.toJson) : m = n := by
  obtain ⟨color, roughness, metalness, opacity, emissive, wireframe⟩ := m
  obtain ⟨color', roughness', metalness', opacity', emissive', wireframe'⟩ := n
  cases emissive <;> cases emissive' <;> simp_all [toJson]

theorem Face.isFinite_toJson {f : Face} (h : f.IsFinite) : f.toJson.IsFinite := by
  obtain ⟨indices, material⟩ := f
  refine .object ?_
  simp only [List.forall_mem_cons]
  refine ⟨.array (List.forall_mem_map.2 fun index _ => .int index), ?_, nofun⟩
  cases material with
  | none => exact .null
  | some m => exact Material.isFinite_toJson (h m rfl)

/-- A missing material is written as a `null`, which no material is. -/
theorem Face.toJson_injective {f g : Face} (h : f.toJson = g.toJson) : f = g := by
  obtain ⟨indices, material⟩ := f
  obtain ⟨indices', material'⟩ := g
  have hmember := Json.object.inj h
  simp only [List.cons.injEq, Prod.mk.injEq, true_and, and_true, Json.array.injEq] at hmember
  obtain ⟨hindices, hmaterial⟩ := hmember
  have hsame : indices = indices' := List.map_injective_iff.2 (fun _ _ => Json.int.inj) hindices
  cases material with
  | none =>
    cases material' with
    | none => rw [hsame]
    | some n => cases hmaterial
  | some m =>
    cases material' with
    | none => cases hmaterial
    | some n => rw [hsame, Material.toJson_injective hmaterial]

theorem Direction.text_injective {d e : Direction} (h : d.text = e.text) : d = e := by
  cases d <;> cases e <;> first | rfl | exact absurd h (by decide)

theorem Shape.isFinite_members {s : Shape} (h : s.IsFinite) : ∀ m ∈ s.members, m.2.IsFinite := by
  refine List.forall_mem_cons.2 ⟨.string _, ?_⟩
  cases h with
  | mesh hvertices hfaces =>
    simp only [List.forall_mem_cons]
    refine ⟨.array (List.forall_mem_map.2 fun v hv => Vector3.isFinite_toJson (hvertices v hv)),
      .array (List.forall_mem_map.2 fun f hf => Face.isFinite_toJson (hfaces f hf)), nofun⟩
  | pyramid hvertices hheight =>
    simp only [List.forall_mem_cons]
    exact ⟨.array (List.forall_mem_map.2 fun v hv => Vector3.isFinite_toJson (hvertices v hv)),
      .float hheight, .string _, nofun⟩
  | group =>
    exact List.forall_mem_singleton.2 (.array (List.forall_mem_map.2 fun name _ => .string name))

/-- The first member names the kind, and each kind has members of its own. -/
theorem Shape.members_injective {s t : Shape} (h : s.members = t.members) : s = t := by
  have hvector := List.map_injective_iff.2 fun _ _ => Vector3.toJson_injective
  have hface := List.map_injective_iff.2 fun _ _ => Face.toJson_injective
  have hname := List.map_injective_iff.2 fun _ _ => Json.string.inj
  cases s with
  | mesh vertices faces =>
    cases t with
    | mesh vertices' faces' =>
      simp only [members, List.cons.injEq, Prod.mk.injEq, Json.array.injEq, true_and, and_true] at h
      rw [hvector h.2.1, hface h.2.2]
    | pyramid => simp [members, kind] at h
    | group => simp [members, kind] at h
  | pyramid vertices height direction =>
    cases t with
    | pyramid vertices' height' direction' =>
      simp only [members, List.cons.injEq, Prod.mk.injEq, Json.array.injEq, Json.float.injEq,
        Json.string.injEq, true_and, and_true] at h
      rw [hvector h.2.1, h.2.2.1, Direction.text_injective h.2.2.2]
    | mesh => simp [members, kind] at h
    | group => simp [members, kind] at h
  | group children =>
    cases t with
    | group children' =>
      simp only [members, List.cons.injEq, Prod.mk.injEq, Json.array.injEq, true_and, and_true] at h
      rw [hname h.2]
    | mesh => simp [members, kind] at h
    | pyramid => simp [members, kind] at h

theorem Object.isFinite_toJson {o : Object} (h : o.IsFinite) : o.toJson.IsFinite := by
  obtain ⟨id, parent, position, rotation, scale, material, shape⟩ := o
  refine .object ?_
  simp only [List.forall_mem_append, List.forall_mem_cons]
  refine ⟨⟨⟨.string id, ?_, Vector3.isFinite_toJson h.position, Vector3.isFinite_toJson h.rotation,
    Vector3.isFinite_toJson h.scale, nofun⟩, ?_⟩, Shape.isFinite_members h.shape⟩
  · cases parent with
    | none => exact .null
    | some name => exact .string name
  · cases material with
    | none => exact nofun
    | some m => exact List.forall_mem_singleton.2 (Material.isFinite_toJson (h.material m rfl))

/-- The members after the scale start with `material` or with `shape`. -/
theorem Object.toJson_injective {o p : Object} (h : o.toJson = p.toJson) : o = p := by
  obtain ⟨id, parent, position, rotation, scale, material, shape⟩ := o
  obtain ⟨id', parent', position', rotation', scale', material', shape'⟩ := p
  have hmembers := Json.object.inj h
  simp only [List.cons_append, List.nil_append, List.cons.injEq, Prod.mk.injEq, true_and,
    Json.string.injEq] at hmembers
  obtain ⟨hid, hparent, hposition, hrotation, hscale, hrest⟩ := hmembers
  have hlink : parent = parent' := by
    cases parent <;> cases parent' <;> simp_all
  have hlook : material = material' ∧ shape = shape' := by
    cases material with
    | none =>
      cases material' with
      | none => exact ⟨rfl, Shape.members_injective hrest⟩
      | some n => exact absurd (List.cons.inj hrest).1 (by simp)
    | some m =>
      cases material' with
      | none => exact absurd (List.cons.inj hrest).1 (by simp)
      | some n =>
        obtain ⟨hmaterial, hshape⟩ := List.cons.inj hrest
        exact ⟨congrArg some (Material.toJson_injective (Prod.mk.inj hmaterial).2),
          Shape.members_injective hshape⟩
  rw [hid, hlink, Vector3.toJson_injective hposition, Vector3.toJson_injective hrotation,
    Vector3.toJson_injective hscale, hlook.1, hlook.2]

theorem Scene.isFinite_toJson {scene : Scene} (h : IsFinite scene) : (toJson scene).IsFinite :=
  .object (List.forall_mem_map.2 fun entry hentry => Object.isFinite_toJson (h entry hentry))

theorem Scene.toJson_injective {s t : Scene} (h : toJson s = toJson t) : s = t := by
  have hentry : Function.Injective fun entry : String × Object => (entry.1, entry.2.toJson) := by
    intro a b hab
    obtain ⟨hname, hobject⟩ := Prod.mk.inj hab
    exact Prod.ext hname (Object.toJson_injective hobject)
  obtain ⟨entries, _⟩ := s
  obtain ⟨entries', _⟩ := t
  have hentries : entries = entries' := List.map_injective_iff.2 hentry (Json.object.inj h)
  subst hentries
  rfl

/-- Two scenes with finite numbers have one text only if they are the same scene. Names, links,
places, materials that are there or missing and every part of a shape are told apart, and so are the
two zeros. -/
theorem Scene.written_eq_iff {s t : Scene} (hs : IsFinite s) (ht : IsFinite t) :
    written s = written t ↔ s = t := by
  refine ⟨fun h => toJson_injective ?_, fun h => congrArg written h⟩
  exact Json.pretty_injective (isFinite_toJson hs) (isFinite_toJson ht) h

/-- A mesh of one vertex on the first axis, with a plain face and a bare one. -/
def Scene.point (x : Float) : Scene :=
  .ofList [("a", .ofShape (.mesh [⟨x, 0, 0⟩] [⟨[0], some .plain⟩, ⟨[0], none⟩]))]

theorem Scene.isFinite_point {x : Float} (h : x.isFinite = true) : IsFinite (point x) := by
  have hzero : Float.isFinite 0 = true := by decide +kernel
  have hone : Float.isFinite 1 = true := by decide +kernel
  have hhalf : Float.isFinite 0.5 = true := by decide +kernel
  have hplain : Material.plain.IsFinite := ⟨hhalf, hzero, hone⟩
  refine List.forall_mem_singleton.2 ?_
  refine ⟨⟨hzero, hzero, hzero⟩, ⟨hzero, hzero, hzero⟩, ⟨hone, hone, hone⟩, nofun, .mesh ?_ ?_⟩
  · exact List.forall_mem_singleton.2 ⟨h, hzero, hzero⟩
  · refine List.forall_mem_cons.2 ⟨?_, List.forall_mem_singleton.2 nofun⟩
    rintro m ⟨⟩
    exact hplain

theorem Scene.written_eq_iff_of_zeros : written (point 0) ≠ written (point (-0)) := by
  intro h
  have hzero := isFinite_point (x := 0) (by decide +kernel)
  have hnegative := isFinite_point (x := -0) (by decide +kernel)
  have hsame : point 0 = point (-0) := (written_eq_iff hzero hnegative).1 h
  have hvertex : (0 : Float) = -0 := by
    simpa [point, Table.ofList, Table.insert, Table.empty, Table.place, Object.ofShape] using hsame
  exact absurd hvertex (by decide +kernel)

end SceneScript
