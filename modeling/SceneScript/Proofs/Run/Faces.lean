import Mathlib.Data.List.Forall2
import SceneScript.Proofs.Notice
import SceneScript.Proofs.Run.Deeds

namespace SceneScript

/-- An index that counts none of so many vertices, behind faces and indices that all count one. -/
inductive FirstMisfit (count : Nat) : List FaceLiteral → Nat → Prop
  | here {face : FaceLiteral} {more : List FaceLiteral} {front behind : List Nat} {index : Nat} :
    face.indices = front ++ index :: behind → (∀ i ∈ front, i < count) → count ≤ index →
    FirstMisfit count (face :: more) index
  | later {face : FaceLiteral} {more : List FaceLiteral} {index : Nat} :
    (∀ i ∈ face.indices, i < count) → FirstMisfit count more index →
    FirstMisfit count (face :: more) index

theorem FirstMisfit.exists_index {count index : Nat} {faces : List FaceLiteral}
    (h : FirstMisfit count faces index) : ∃ face ∈ faces, ∃ i ∈ face.indices, count ≤ i := by
  induction h with
  | here hindices _ hmisfit =>
    exact ⟨_, List.mem_cons_self .., _, by simp [hindices], hmisfit⟩
  | later _ _ ih =>
    obtain ⟨face, hface, hmisfit⟩ := ih
    exact ⟨face, List.mem_cons_of_mem _ hface, hmisfit⟩

namespace Machine

/-- What references of faces stand for: a material in scope, or one that a module in scope
exports. -/
inductive Refers (m : Machine) : MaterialRef → Material → Prop
  | named {name : String} {material : Material} :
    m.scope.lookup? name = some (.material material) → Refers m (.named name) material
  | member {library item : String} {id : ModuleId} {material : Material} :
    m.scope.lookup? library = some (.module id) →
    (m.store.exports id).get? item = some (.material material) →
    Refers m (.member library item) material

def Resolves (m : Machine) (reference : MaterialRef) :
    Prop := ∃ material, m.Refers reference material

/-- A face has the indices of its literal, and the material that the reference stands for, if
any. -/
structure Realizes (m : Machine) (literal : FaceLiteral) (face : Face) : Prop where
  indices_eq : face.indices = literal.indices
  material_iff (material : Material) : face.material = some material ↔
    ∃ reference ∈ literal.material, m.Refers reference material

variable {m after : Machine} {reference : MaterialRef} {material : Material}

theorem referred?_eq_some_iff :
    m.referred? reference = some material ↔ m.Refers reference material := by
  cases reference with
  | named name =>
    constructor
    · intro h
      obtain ⟨value, hlookup, hvalue⟩ := Option.bind_eq_some_iff.1 h
      cases value <;> cases hvalue
      exact .named hlookup
    · rintro ⟨h⟩
      exact Option.bind_eq_some_iff.2 ⟨_, h, rfl⟩
  | member library item =>
    unfold referred?
    constructor
    · intro h
      dsimp only at h
      split at h
      next id hlookup =>
        obtain ⟨value, hentry, hvalue⟩ := Option.bind_eq_some_iff.1 h
        cases value <;> cases hvalue
        exact .member hlookup hentry
      next => cases h
    · rintro ⟨⟩
      next id hlookup hentry =>
        dsimp only
        rw [hlookup]
        exact Option.bind_eq_some_iff.2 ⟨_, hentry, rfl⟩

theorem isSome_referred?_iff : (m.referred? reference).isSome = true ↔ m.Resolves reference := by
  simp only [Option.isSome_iff_exists, referred?_eq_some_iff, Resolves]

instance (m : Machine) : DecidablePred m.Resolves :=
  fun _ => decidable_of_iff _ isSome_referred?_iff

def unresolved (m : Machine) (faces : List FaceLiteral) : List MaterialRef :=
  (faces.filterMap (·.material)).filter fun reference => ¬m.Resolves reference

def face (m : Machine) (literal : FaceLiteral) : Face :=
  ⟨literal.indices, literal.material.bind m.referred?⟩

theorem realizes_face (m : Machine) (literal : FaceLiteral) :
    m.Realizes literal (m.face literal) where
  indices_eq := rfl
  material_iff material := by
    simp only [face, Option.bind_eq_some_iff, referred?_eq_some_iff, Option.mem_def]

theorem GrowsTo.face_eq (h : m.GrowsTo after) : after.face = m.face := by
  funext literal
  rw [face, face, h.referred?_eq]

/-- A face is complained of if its reference is not resolved. -/
theorem complaint?_face (m : Machine) (span : Span) (reference : Option MaterialRef) :
    m.complaint? (.face span reference) = (reference.filter fun r => ¬m.Resolves r).map
      fun r => .warning span.line (.faceWithoutMaterial r.text) := by
  cases reference with
  | none => rfl
  | some r =>
    rw [complaint?, Option.filter_some]
    by_cases h : m.Resolves r
    · have hsome := isSome_referred?_iff.2 h
      simp [h, Option.isNone_eq_false_iff.2 hsome]
    · have hnone : (m.referred? r).isNone = true := by
        rw [Option.isNone_iff_eq_none, ← Option.not_isSome_iff_eq_none, isSome_referred?_iff]
        exact h
      simp [h, hnone]

/-- What is complained of faces are the references that are not resolved. -/
theorem filterMap_complaint?_faces (m : Machine) (span : Span) (faces : List FaceLiteral) :
    (faces.map fun face => Deed.face span face.material).filterMap m.complaint? =
      (m.unresolved faces).map fun r => .warning span.line (.faceWithoutMaterial r.text) := by
  induction faces with
  | nil => rfl
  | cons face more ih =>
    rw [List.map_cons, List.filterMap_cons, ih, complaint?_face, unresolved, unresolved,
      List.filterMap_cons]
    cases face.material with
    | none => rfl
    | some r => by_cases h : m.Resolves r <;> simp [h, Option.filter_some]

end Machine

namespace Run
variable {span : Span} {count : Nat} {faces : List FaceLiteral} {m after : Machine}

theorem faceMaterial_fst (span : Span) (reference : Option MaterialRef) (m : Machine) :
    (faceMaterial span reference m).1 = .ok (reference.bind m.referred?) := by
  cases reference with
  | none => rfl
  | some reference =>
    unfold faceMaterial
    dsimp only
    rw [bind_apply_of_ok _ (referredMaterial?_apply reference m), Option.bind_some]
    cases m.referred? reference <;> rfl

theorem faceMaterial_apply (span : Span) (reference : Option MaterialRef) (m : Machine) :
    ∃ after, faceMaterial span reference m = (.ok (reference.bind m.referred?), after) :=
  ⟨_, Prod.ext (faceMaterial_fst span reference m) rfl⟩

/-- The faces of a literal are built in the machine before the first of them. -/
theorem buildFaces_fst_of_fits (h : ∀ face ∈ faces, face.fits count = true) (m : Machine) :
    (buildFaces span count faces m).1 = .ok (faces.map m.face) := by
  induction faces generalizing m with
  | nil => rfl
  | cons face more ih =>
    obtain ⟨hface, hmore⟩ := List.forall_mem_cons.1 h
    have hindex : face.indices.find? (count ≤ ·) = none := by simpa [FaceLiteral.fits] using hface
    obtain ⟨between, hmaterial⟩ := faceMaterial_apply span face.material m
    have hbuilt : buildFace span count face m = (.ok (m.face face), between) := by
      rw [buildFace, hindex]
      exact bind_apply_of_ok _ hmaterial
    have hgrows : m.GrowsTo between := by
      have hperforms := performs_faceMaterial span face.material m
      rw [hmaterial] at hperforms
      exact hperforms.grows
    have hlater : buildFaces span count more between =
        (.ok (more.map m.face), (buildFaces span count more between).2) :=
      Prod.ext (by rw [ih hmore, hgrows.face_eq]) rfl
    rw [buildFaces, bind_apply_of_ok _ hbuilt, bind_apply_of_ok _ hlater]
    rfl

/-- A literal fails at its first index that counts no vertex. -/
theorem exists_firstMisfit_of_buildFaces {stop : Stop}
    (h : (buildFaces span count faces m).1 = .error stop) :
    ∃ index, FirstMisfit count faces index ∧
      stop = .fault (.placed (.faceIndex index count) span) := by
  -- The faces before the misfit were built, and building them leaves the count of vertices alone.
  induction faces generalizing m with
  | nil => cases h
  | cons face more ih =>
    cases hindex : face.indices.find? (count ≤ ·) with
    | some index =>
      obtain ⟨hmisfit, front, behind, hindices, hfront⟩ := List.find?_eq_some_iff_append.1 hindex
      have hbuilt : buildFace span count face m =
          (.error (.fault (.placed (.faceIndex index count) span)), m) := by
        rw [buildFace, hindex]
        rfl
      rw [buildFaces, bind_apply_of_error _ hbuilt] at h
      cases h
      refine ⟨index, .here hindices (fun i hi => ?_) (by simpa using hmisfit), rfl⟩
      simpa using hfront i hi
    | none =>
      obtain ⟨built, between, hbuilt, -⟩ := exists_of_buildFace span hindex m
      rw [buildFaces, bind_apply_of_ok _ hbuilt] at h
      have hmore : (buildFaces span count more between).1 = .error stop := by
        rcases hrest : buildFaces span count more between with ⟨cause | later, last⟩
        · rw [bind_apply_of_error _ hrest] at h
          exact h
        · rw [bind_apply_of_ok _ hrest] at h
          cases h
      obtain ⟨index, hmisfit, rfl⟩ := ih hmore
      exact ⟨index, .later (by simpa using hindex) hmisfit, rfl⟩

theorem fits_iff {face : FaceLiteral} :
    face.fits count = true ↔ ∀ i ∈ face.indices, i < count := by
  simp [FaceLiteral.fits]

/-- A literal whose indices count vertices comes to a new mesh, and its faces are all that is
done. -/
theorem exists_evaluate_mesh (span : Span) {vertices : List Vector3}
    (h : ∀ face ∈ faces, face.fits vertices.length = true) (m : Machine) :
    ∃ id after, evaluate (.mesh span vertices faces) m = (.ok (.object id), after) ∧
      ¬m.store.hasObject id ∧ after.store.object id = .ofShape (.mesh vertices (faces.map m.face)) ∧
      after.notices.toList = m.notices.toList ++
        (m.unresolved faces).map (fun r => .warning span.line (.faceWithoutMaterial r.text)) := by
  have hperforms := performs_buildFaces span vertices.length faces m
  have hbuilt : buildFaces span vertices.length faces m =
      (.ok (faces.map m.face), (buildFaces span vertices.length faces m).2) :=
    Prod.ext (buildFaces_fst_of_fits h m) rfl
  generalize (buildFaces span vertices.length faces m).2 = between at hperforms hbuilt
  let mesh := Object.ofShape (.mesh vertices (faces.map m.face))
  refine ⟨(between.store.addObject mesh).1,
    { between with store := (between.store.addObject mesh).2 }, ?_, fun hid => ?_, ?_, ?_⟩
  · rw [evaluate, bind_apply_of_ok _ hbuilt]
    rfl
  · exact Nat.lt_irrefl _ (hperforms.grows.store.hasObject hid)
  · rw [Store.object_addObject, if_pos rfl]
  · have hnotices := hperforms.notices
    rwa [faceDeeds, List.takeWhile_eq_self_iff.2 h, Machine.filterMap_complaint?_faces] at hnotices

/-- Evaluating a mesh literal fails exactly if some index counts no vertex, at the first such index
of the first such face. Otherwise it comes to a new mesh of all vertices and all faces, in their
order and with their indices; each face has the material that its reference stands for, or none, and
there is one warning more for each reference that stands for none, in the order of the faces, none
of them fatal. -/
theorem mesh_fails_at_index_only (span : Span) (vertices : List Vector3) (faces : List FaceLiteral)
    (m : Machine) :
    ((∃ stop, (evaluate (.mesh span vertices faces) m).1 = .error stop) ↔
      ∃ face ∈ faces, ∃ i ∈ face.indices, vertices.length ≤ i) ∧
    (∀ stop, (evaluate (.mesh span vertices faces) m).1 = .error stop →
      ∃ index, FirstMisfit vertices.length faces index ∧
        stop = .fault (.placed (.faceIndex index vertices.length) span)) ∧
    ((∀ face ∈ faces, ∀ i ∈ face.indices, i < vertices.length) →
      ∃ id after built warnings, evaluate (.mesh span vertices faces) m =
        (.ok (.object id), after) ∧
        ¬m.store.hasObject id ∧ after.store.object id = .ofShape (.mesh vertices built) ∧
        List.Forall₂ m.Realizes faces built ∧
        after.notices.toList = m.notices.toList ++ warnings ∧
        warnings = (m.unresolved faces).map
          (fun r => .warning span.line (.faceWithoutMaterial r.text)) ∧
        ∀ n ∈ warnings, n.isWarning = true) := by
  have hstops (stop : Stop) (h : (evaluate (.mesh span vertices faces) m).1 = .error stop) :
      ∃ index, FirstMisfit vertices.length faces index ∧
        stop = .fault (.placed (.faceIndex index vertices.length) span) := by
    refine exists_firstMisfit_of_buildFaces (m := m) ?_
    rcases hbuilt : buildFaces span vertices.length faces m with ⟨cause | built, between⟩
    · rw [evaluate, bind_apply_of_error _ hbuilt] at h
      cases h
      rfl
    · rw [evaluate, bind_apply_of_ok _ hbuilt] at h
      cases h
  refine ⟨⟨fun ⟨stop, h⟩ => ?_, fun ⟨face, hface, i, hi, hmisfit⟩ => ?_⟩, hstops, fun hall => ?_⟩
  · obtain ⟨index, hmisfit, -⟩ := hstops stop h
    exact hmisfit.exists_index
  · rcases hresult : (evaluate (.mesh span vertices faces) m).1 with stop | value
    · exact ⟨stop, rfl⟩
    · obtain ⟨built, between, hbuilt, -⟩ := exists_of_bind_eq_ok (Prod.ext hresult rfl)
      have hfits := fits_iff.1 (fits_of_buildFaces hbuilt face hface) i hi
      exact absurd hfits (Nat.not_lt.2 hmisfit)
  · have hfits : ∀ face ∈ faces, face.fits vertices.length = true :=
      fun face hface => fits_iff.2 (hall face hface)
    obtain ⟨id, after, heval, hnew, hmesh, hnotices⟩ := exists_evaluate_mesh span hfits m
    refine ⟨id, after, faces.map m.face, _, heval, hnew, hmesh, ?_, hnotices, rfl, ?_⟩
    · exact List.forall₂_map_right_iff.2 (List.forall₂_same.2 fun face _ => m.realizes_face face)
    · intro n hn
      obtain ⟨r, -, rfl⟩ := List.mem_map.1 hn
      exact Notice.isWarning_warning _ _

theorem mesh_of_steel_and_number :
    let paint : Exports := Table.empty.insert "paint" (.material .plain)
    let scope := (Scope.empty.assign "steel" (.material .plain)).assign "parts" (.module ⟨0⟩)
    let m : Machine := ⟨⟨#[], #[paint], #[]⟩, scope.assign "count" (.number 3), .empty, #[], #[]⟩
    let corners : List Vector3 := [⟨0, 0, 0⟩, ⟨1, 0, 0⟩, ⟨0, 1, 0⟩]
    let faces : List FaceLiteral := [⟨[0, 1, 2], some (.named "steel")⟩,
      ⟨[2, 1, 0], some (.named "count")⟩, ⟨[1], some (.member "parts" "paint")⟩, ⟨[], none⟩]
    (∀ face ∈ faces, ∀ i ∈ face.indices, i < corners.length) ∧
      ∃ id after built, evaluate (.mesh ⟨0, 4, 2, 1⟩ corners faces) m = (.ok (.object id), after) ∧
        after.store.object id = .ofShape (.mesh corners built) ∧
        List.Forall₂ m.Realizes faces built ∧
        after.notices.toList = [.warning 2 (.faceWithoutMaterial "count")] := by
  intro paint scope m corners faces
  have hfits : ∀ face ∈ faces, ∀ i ∈ face.indices, i < corners.length := by decide
  have hunresolved : m.unresolved faces = [.named "count"] := by decide +kernel
  obtain ⟨id, after, built, warnings, heval, -, hmesh, hfaces, hnotices, rfl, -⟩ :=
    (mesh_fails_at_index_only ⟨0, 4, 2, 1⟩ corners faces m).2.2 hfits
  refine ⟨hfits, id, after, built, heval, hmesh, hfaces, ?_⟩
  rw [hnotices, hunresolved]
  rfl

end Run
end SceneScript
