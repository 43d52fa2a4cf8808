import Mathlib.Data.List.TakeWhile
import SceneScript.Proofs.Renaming
import SceneScript.Proofs.Run.Evaluation

namespace SceneScript

/-- What an evaluation does besides coming to a value. -/
inductive Deed where
  /-- Builds a face of the mesh literal at this place. -/
  | face (span : Span) (material : Option MaterialRef)
  | call (f : Native) (args : List Value)

def Machine.referred? (m : Machine) (reference : MaterialRef) : Option Material :=
  match reference with
  | .named name => (m.scope.lookup? name).bind Value.material?
  | .member library item =>
    match m.scope.lookup? library with
    | some (.module id) => ((m.store.exports id).get? item).bind Value.material?
    | _ => none

def Machine.complaint? (m : Machine) : Deed → Option Notice
  | .face span (some reference) =>
    if (m.referred? reference).isNone then
      some (.warning span.line (.faceWithoutMaterial reference.text))
    else none
  | _ => none

/-- The generators after a deed. A random function that has a value advances that of its library. -/
def Deed.draw (generators : Array Random.Generator) : Deed → Array Random.Generator
  | .call f args =>
    if f.function.isRandom then
      match f.function.call args (generators[f.library.index]?.getD (.ofSeed 0)) with
      | .ok (_, g) => generators.setIfInBounds f.library.index g
      | .error _ => generators
    else generators
  | .face .. => generators

def FaceLiteral.fits (face : FaceLiteral) (count : Nat) : Bool := face.indices.all (· < count)

def Deed.face? : Deed → Option (Span × Option MaterialRef)
  | .face span material => some (span, material)
  | .call .. => none

abbrev Deeds := Machine → List Deed

namespace Deeds

def none : Deeds := fun _ => []

/-- The deeds of a run and then, if it comes to a value, those of what follows. -/
def andThen {α : Type} (first : Deeds) (x : Run α) (rest : α → Deeds) : Deeds := fun m =>
  first m ++ match x m with
    | (.ok a, between) => rest a between
    | (.error _, _) => []

end Deeds

namespace Run

/-! ### Deeds of expressions -/

/-- The faces of a mesh literal up to the first that counts a vertex which is not there. -/
def faceDeeds (span : Span) (count : Nat) (faces : List FaceLiteral) : List Deed :=
  (faces.takeWhile (·.fits count)).map fun face => .face span face.material

theorem faceDeeds_cons (span : Span) (count : Nat) (face : FaceLiteral) (more : List FaceLiteral) :
    faceDeeds span count (face :: more) =
      if face.fits count then .face span face.material :: faceDeeds span count more else [] := by
  rw [faceDeeds, List.takeWhile_cons]
  split <;> rfl

def memberDeeds (id : ModuleId) (name : String) (args : List Value) : Deeds := fun m =>
  match (m.store.exports id).get? name with
  | some (.native f) => [.call f args]
  | _ => []

def nameDeeds (callee : String) (args : List Value) : Deeds := fun m =>
  match (args.head?.getD .nil).convert? callee m.store.display with
  | some _ => []
  | none =>
    match m.scope.lookup? callee with
    | some (.native f) => [.call f args]
    | _ => []

def receiverDeeds (receiver callee : String) (args : List Value) : Deeds := fun m =>
  match m.scope.lookup? receiver with
  | some (.module id) => memberDeeds id callee args m
  | _ => []

mutual
def deeds : Expr → Deeds
  | .binary _ _ left right => (deeds left).andThen (evaluate left) fun _ => deeds right
  | .call _ none callee args => (deedsAll args).andThen (evaluateAll args) (nameDeeds callee)
  | .call _ (some receiver) callee args =>
    (deedsAll args).andThen (evaluateAll args) (receiverDeeds receiver callee)
  | .mesh span vertices faces => fun _ => faceDeeds span vertices.length faces
  | .material _ properties => propertiesDeeds properties
  | .modifier _ _ properties => propertiesDeeds properties
  | _ => .none
def deedsAll : List Expr → Deeds
  | [] => .none
  | first :: more => (deeds first).andThen (evaluate first) fun _ => deedsAll more
def propertyDeeds : Property Expr → Deeds
  | .single _ e => deeds e
  | .list _ es => deedsAll es
def propertiesDeeds : List (Property Expr) → Deeds
  | [] => .none
  | first :: more => (propertyDeeds first).andThen (evaluateProperty first) fun _ =>
    propertiesDeeds more
end

end Run

/-! ### What deeds leave -/

theorem Store.draw_of_call_eq_ok {s t : Store} {f : Native} {args : List Value} {value : Value}
    (h : s.call f args = .ok (value, t)) :
    Deed.draw s.generators (.call f args) = t.generators := by
  rw [Deed.draw]
  cases hrandom : f.function.isRandom with
  | false =>
    rw [call_of_isRandom_eq_false hrandom] at h
    cases hfixed : f.function.callFixed args with
    | error failure =>
      rw [hfixed] at h
      cases h
    | ok fixed =>
      rw [hfixed] at h
      cases h
      rfl
  | true =>
    unfold call at h
    dsimp only at h
    rw [if_pos rfl]
    cases hcall : f.function.call args (s.generators[f.library.index]?.getD (.ofSeed 0)) with
    | error failure =>
      rw [hcall] at h
      cases h
    | ok drawn =>
      rw [hcall] at h
      cases h
      rfl

/-- A call that has no value leaves the generators alone. -/
theorem Store.draw_of_call_eq_error {s : Store} {f : Native} {args : List Value}
    {failure : CallFailure} (h : s.call f args = .error failure) :
    Deed.draw s.generators (.call f args) = s.generators := by
  rw [Deed.draw]
  unfold call at h
  dsimp only at h
  cases hcall : f.function.call args (s.generators[f.library.index]?.getD (.ofSeed 0)) with
  | error failure => exact ite_self _
  | ok drawn =>
    rw [hcall] at h
    cases h

/-- The machine after a run that has done so much: it has left alone what was there, reported what
is to be reported of its deeds and drawn what they draw. -/
structure Machine.Performs (m : Machine) (done : List Deed) (after : Machine) : Prop where
  grows : m.GrowsTo after
  notices : after.notices.toList = m.notices.toList ++ done.filterMap m.complaint?
  generators : after.store.generators = done.foldl Deed.draw m.store.generators

namespace Machine
variable {m between after : Machine} {done more : List Deed}

theorem GrowsTo.referred?_eq (h : m.GrowsTo after) : after.referred? = m.referred? := by
  funext reference
  simp only [referred?, h.scope_eq, h.store.exports_eq]

/-- What is reported of a deed does not depend on the deeds before it. -/
theorem GrowsTo.complaint?_eq (h : m.GrowsTo after) : after.complaint? = m.complaint? := by
  funext deed
  simp only [complaint?, h.referred?_eq]

theorem Performs.trans (h : m.Performs done between) (h' : between.Performs more after) :
    m.Performs (done ++ more) after where
  grows := h.grows.trans h'.grows
  notices := by
    rw [h'.notices, h.notices, h.grows.complaint?_eq, List.filterMap_append, List.append_assoc]
  generators := by rw [h'.generators, h.generators, List.foldl_append]

theorem Performs.refl (m : Machine) : m.Performs [] m :=
  ⟨.refl m, (List.append_nil _).symm, rfl⟩

instance : IsPreorder Machine (Performs · [] ·) where
  refl := .refl
  trans _ _ _ := Performs.trans

end Machine

namespace Run
variable {α β : Type} {x : Run α} {f : α → Run β} {D : Deeds} {E : α → Deeds}

/-! ### Runs and their deeds -/

def Performs (x : Run α) (D : Deeds) : Prop := ∀ m : Machine, m.Performs (D m) (x m).2

abbrev Idle (x : Run α) : Prop := Keeps (Machine.Performs · [] ·) x

theorem Keeps.performs (h : Idle x) : Performs x .none := h

theorem Performs.bind (hx : Performs x D) (hf : ∀ a, Performs (f a) (E a)) :
    Performs (x >>= f) (D.andThen x E) := by
  intro m
  have hfirst : m.Performs (D m) (x m).2 := hx m
  unfold Deeds.andThen
  rcases hm : x m with ⟨stop | a, between⟩ <;> rw [hm] at hfirst
  · rw [bind_apply_of_error f hm, List.append_nil]
    exact hfirst
  · rw [bind_apply_of_ok f hm]
    exact hfirst.trans (hf a between)

/-- What follows and does nothing adds nothing. -/
theorem Performs.bind_idle (hx : Performs x D) (hf : ∀ a, Idle (f a)) : Performs (x >>= f) D := by
  intro m
  have hfirst : m.Performs (D m) (x m).2 := hx m
  rcases hm : x m with ⟨stop | a, between⟩ <;> rw [hm] at hfirst
  · rw [bind_apply_of_error f hm]
    exact hfirst
  · rw [bind_apply_of_ok f hm]
    have hboth := hfirst.trans (hf a between)
    rwa [List.append_nil] at hboth

theorem Performs.placing (span : Span) (hx : Performs x D) : Performs (placing span x) D := by
  intro m
  rw [placing_apply]
  exact hx m

theorem idle_addObject (o : Object) : Idle (addObject o) := fun m =>
  ⟨quiet_addObject o m, (List.append_nil _).symm, rfl⟩

/-! ### Calls -/

theorem performs_callNative (shownAs : String) (f : Native) (args : List Value) :
    Performs (callNative shownAs f args) fun _ => [.call f args] := by
  intro m
  have hgrows : m.GrowsTo (callNative shownAs f args m).2 := quiet_callNative shownAs f args m
  unfold callNative at hgrows ⊢
  rw [bind_apply_of_ok _ (getStore_apply m)] at hgrows ⊢
  cases h : m.store.call f args with
  | error failure =>
    have hdraw := (Store.draw_of_call_eq_error h).symm
    cases failure with
    | refused reason => exact ⟨.refl m, (List.append_nil _).symm, hdraw⟩
    | breakdown => exact ⟨.refl m, (List.append_nil _).symm, hdraw⟩
  | ok result =>
    rw [h] at hgrows
    exact ⟨hgrows, (List.append_nil _).symm, (Store.draw_of_call_eq_ok h).symm⟩

theorem performs_callMember (owner : String) (id : ModuleId) (name : String) (args : List Value) :
    Performs (callMember owner id name args) (memberDeeds id name args) := by
  intro m
  unfold callMember memberDeeds
  rw [bind_apply_of_ok _ (getStore_apply m)]
  rcases (m.store.exports id).get? name with _ | value
  · exact .refl m
  · cases value with
    | native f => exact performs_callNative _ f args m
    | _ => exact .refl m

theorem performs_callName (callee : String) (args : List Value) :
    Performs (callName callee args) (nameDeeds callee args) := by
  intro m
  unfold callName nameDeeds
  rw [bind_apply_of_ok _ (getStore_apply m)]
  cases (args.head?.getD .nil).convert? callee m.store.display with
  | some converted => exact (Keeps.ofExcept converted : Idle (ofExcept converted)) m
  | none =>
    dsimp only
    rw [lookup, bind_assoc, bind_apply_of_ok _ (lookup?_apply callee m)]
    rcases m.scope.lookup? callee with _ | value
    · exact .refl m
    · cases value with
      | native f => exact performs_callNative _ f args m
      | _ => exact .refl m

theorem performs_callReceiver (receiver callee : String) (args : List Value) :
    Performs (callReceiver receiver callee args) (receiverDeeds receiver callee args) := by
  intro m
  unfold callReceiver receiverDeeds
  rw [lookup, bind_assoc, bind_apply_of_ok _ (lookup?_apply receiver m)]
  rcases m.scope.lookup? receiver with _ | value
  · exact .refl m
  · cases value with
    | module id => exact performs_callMember receiver id callee args m
    | _ => exact .refl m

/-! ### Meshes and modifiers -/

theorem referredMaterial?_apply (reference : MaterialRef) (m : Machine) :
    referredMaterial? reference m = (.ok (m.referred? reference), m) := by
  cases reference with
  | named name => rfl
  | member library item =>
    unfold referredMaterial? Machine.referred?
    dsimp only
    rw [bind_apply_of_ok _ (lookup?_apply library m)]
    rcases m.scope.lookup? library with _ | value
    · rfl
    · cases value <;> rfl

theorem performs_faceMaterial (span : Span) (reference : Option MaterialRef) :
    Performs (faceMaterial span reference) fun _ => [.face span reference] := by
  intro m
  cases reference with
  | none => exact ⟨.refl m, (List.append_nil _).symm, rfl⟩
  | some reference =>
    unfold faceMaterial
    dsimp only
    rw [bind_apply_of_ok _ (referredMaterial?_apply reference m)]
    cases h : m.referred? reference with
    | some material =>
      have hcomplaint : m.complaint? (.face span (some reference)) = none := by
        rw [Machine.complaint?, h]
        rfl
      exact ⟨.refl m, by rw [List.filterMap_cons_none hcomplaint]; exact (List.append_nil _).symm,
        rfl⟩
    | none =>
      have hcomplaint : m.complaint? (.face span (some reference)) =
          some (.warning span.line (.faceWithoutMaterial reference.text)) := by
        rw [Machine.complaint?, h]
        rfl
      refine ⟨quiet_warn span _ m, ?_, rfl⟩
      rw [List.filterMap_cons_some hcomplaint]
      exact Array.toList_push

theorem succeeds_faceMaterial (span : Span) (reference : Option MaterialRef) :
    Succeeds (faceMaterial span reference) := by
  cases reference with
  | none => exact .pure none
  | some reference =>
    have hreferred : Succeeds (referredMaterial? reference) := fun m =>
      ⟨m.referred? reference, m, referredMaterial?_apply reference m⟩
    refine hreferred.bind fun found => ?_
    cases found with
    | some material => exact .pure _
    | none => exact fun m => ⟨none, _, rfl⟩

/-- A face that counts only vertices that are there is built, whatever its material. -/
theorem exists_of_buildFace {face : FaceLiteral} {count : Nat} (span : Span)
    (h : face.indices.find? (count ≤ ·) = none) (m : Machine) :
    ∃ built after, buildFace span count face m = (.ok built, after) ∧
      m.Performs [.face span face.material] after := by
  obtain ⟨material, after, hmaterial⟩ := succeeds_faceMaterial span face.material m
  have hperforms : m.Performs [.face span face.material]
      (faceMaterial span face.material m).2 := performs_faceMaterial span face.material m
  rw [hmaterial] at hperforms
  refine ⟨⟨face.indices, material⟩, after, ?_, hperforms⟩
  rw [buildFace, h]
  exact bind_apply_of_ok _ hmaterial

/-- A literal is built face by face, up to the first face that cannot be. -/
theorem performs_buildFaces (span : Span) (count : Nat) (faces : List FaceLiteral) :
    Performs (buildFaces span count faces) fun _ => faceDeeds span count faces := by
  induction faces with
  | nil => exact Keeps.performs (.pure [])
  | cons face more ih =>
    intro m
    cases hindex : face.indices.find? (count ≤ ·) with
    | some index =>
      have hfits : ¬ face.fits count = true := by
        have hle := List.find?_some hindex
        rw [FaceLiteral.fits, List.all_eq_true]
        exact fun hall => absurd (hall index (List.mem_of_find?_eq_some hindex))
          (by simpa using hle)
      rw [faceDeeds_cons, if_neg hfits, buildFaces, buildFace, hindex]
      exact .refl m
    | none =>
      have hfits : face.fits count = true := by simpa [FaceLiteral.fits] using hindex
      obtain ⟨built, between, hbuilt, hfirst⟩ := exists_of_buildFace span hindex m
      have hmore : Performs (do return built :: (← buildFaces span count more))
          fun _ => faceDeeds span count more := ih.bind_idle fun _ => .pure _
      rw [faceDeeds_cons, if_pos hfits, buildFaces, bind_apply_of_ok _ hbuilt]
      exact hfirst.trans (hmore between)

/-! ### Expressions -/

mutual
/-- Evaluating an expression does its deeds and nothing else. -/
theorem performs_evaluate : ∀ e : Expr, Performs (evaluate e) (deeds e)
  | .number _ x => Keeps.performs (.pure (Value.number x))
  | .string _ text => Keeps.performs (.pure (Value.string text))
  | .reference span name members => Keeps.performs <|
    ((Keeps.lookup name).placing span).bind fun value => .followMembers span name value members
  | .binary span _ left right =>
    (performs_evaluate left).bind fun _ => (performs_evaluate right).bind_idle fun _ =>
      (Keeps.getStore.bind fun _ => .ofExcept _).placing span
  | .call span none callee args =>
    ((performs_evaluateAll args).bind (performs_callName callee)).placing span
  | .call span (some receiver) callee args =>
    ((performs_evaluateAll args).bind (performs_callReceiver receiver callee)).placing span
  | .cube span _ => Keeps.performs <|
    ((Keeps.ofExcept _).placing span).bind fun shape => (idle_addObject (.ofShape shape)).map _
  | .mesh span vertices faces =>
    (performs_buildFaces span vertices.length faces).bind_idle fun _ => (idle_addObject _).map _
  | .material span properties =>
    (performs_evaluateProperties properties).bind_idle fun _ =>
      ((Keeps.ofExcept _).placing span).map _
  | .modifier span kind properties =>
    (performs_evaluateProperties properties).bind_idle fun props =>
      .modified idle_addObject span kind props
  | .group _ _ => Keeps.performs ((idle_addObject _).map _)
theorem performs_evaluateAll : ∀ es : List Expr, Performs (evaluateAll es) (deedsAll es)
  | [] => Keeps.performs (.pure [])
  | first :: more =>
    (performs_evaluate first).bind fun _ => (performs_evaluateAll more).bind_idle fun _ => .pure _
theorem performs_evaluateProperty :
    ∀ p : Property Expr, Performs (evaluateProperty p) (propertyDeeds p)
  | .single _ e => (performs_evaluate e).bind_idle fun _ => .pure _
  | .list _ es => (performs_evaluateAll es).bind_idle fun _ => .pure _
theorem performs_evaluateProperties :
    ∀ ps : List (Property Expr), Performs (evaluateProperties ps) (propertiesDeeds ps)
  | [] => Keeps.performs (.pure [])
  | first :: more => (performs_evaluateProperty first).bind fun _ =>
    (performs_evaluateProperties more).bind_idle fun _ => .pure _
end

end Run

/-! ### Faces of mesh literals -/

namespace Expr

mutual
/-- The faces of all mesh literals of an expression, in the order of evaluation. -/
def faces : Expr → List (Span × Option MaterialRef)
  | .binary _ _ left right => left.faces ++ right.faces
  | .call _ _ _ args => facesAll args
  | .mesh span _ literals => literals.map fun face => (span, face.material)
  | .material _ properties => propertiesFaces properties
  | .modifier _ _ properties => propertiesFaces properties
  | _ => []
def facesAll : List Expr → List (Span × Option MaterialRef)
  | [] => []
  | first :: more => first.faces ++ facesAll more
def propertyFaces : Property Expr → List (Span × Option MaterialRef)
  | .single _ e => e.faces
  | .list _ es => facesAll es
def propertiesFaces : List (Property Expr) → List (Span × Option MaterialRef)
  | [] => []
  | first :: more => propertyFaces first ++ propertiesFaces more
end

end Expr

namespace Run
variable {α β : Type} {x : Run α} {f : α → Run β} {D : Deeds} {E : α → Deeds}
  {built more : List (Span × Option MaterialRef)}

/-- The deeds of a run build the first of these faces, and all of them if it comes to a value. -/
def Builds (x : Run α) (D : Deeds) (built : List (Span × Option MaterialRef)) : Prop :=
  ∀ m : Machine, (D m).filterMap Deed.face? <+: built ∧
    ∀ a, (x m).1 = .ok a → (D m).filterMap Deed.face? = built

theorem Builds.none (h : ∀ m : Machine, (D m).filterMap Deed.face? = []) : Builds x D [] :=
  fun m => ⟨h m ▸ List.nil_prefix, fun _ _ => h m⟩

theorem Builds.bind (hx : Builds x D built) (hf : ∀ a, Builds (f a) (E a) more) :
    Builds (x >>= f) (D.andThen x E) (built ++ more) := by
  intro m
  obtain ⟨hbegins, hall⟩ := hx m
  unfold Deeds.andThen
  rcases hm : x m with ⟨stop | a, between⟩
  · rw [bind_apply_of_error f hm, List.append_nil]
    exact ⟨hbegins.trans (List.prefix_append _ _), nofun⟩
  · obtain ⟨hbegins', hall'⟩ := hf a between
    have hfirst : (D m).filterMap Deed.face? = built := hall a (by rw [hm])
    rw [bind_apply_of_ok f hm, List.filterMap_append, hfirst]
    exact ⟨(List.prefix_append_right_inj _).2 hbegins', fun b hb => by rw [hall' b hb]⟩

/-- What follows and builds nothing adds nothing. -/
theorem Builds.bind_none (hx : Builds x D built) : Builds (x >>= f) D built := by
  intro m
  obtain ⟨hbegins, hall⟩ := hx m
  refine ⟨hbegins, fun b hb => ?_⟩
  rcases hm : x m with ⟨stop | a, between⟩
  · rw [bind_apply_of_error f hm] at hb
    cases hb
  · exact hall a (by rw [hm])

theorem Builds.placing (span : Span) (hx : Builds x D built) : Builds (placing span x) D built := by
  intro m
  obtain ⟨hbegins, hall⟩ := hx m
  refine ⟨hbegins, fun a ha => hall a ?_⟩
  exact (Prod.ext_iff.1 (placing_eq_ok (Prod.ext ha rfl))).1

theorem builds_callName (callee : String) (args : List Value) :
    Builds (callName callee args) (nameDeeds callee args) [] := by
  refine .none fun m => ?_
  unfold nameDeeds
  split
  · rfl
  · split <;> rfl

theorem builds_callReceiver (receiver callee : String) (args : List Value) :
    Builds (callReceiver receiver callee args) (receiverDeeds receiver callee args) [] := by
  refine .none fun m => ?_
  unfold receiverDeeds memberDeeds
  split
  · split <;> rfl
  · rfl

theorem fits_of_buildFaces {span : Span} {count : Nat} {faces : List FaceLiteral}
    {m after : Machine}
    {result : List Face} (h : buildFaces span count faces m = (.ok result, after)) :
    ∀ face ∈ faces, face.fits count = true := by
  induction faces generalizing m after result with
  | nil => simp
  | cons face more ih =>
    obtain ⟨first, between, hfirst, hrest⟩ := exists_of_bind_eq_ok h
    obtain ⟨later, last, hlater, -⟩ := exists_of_bind_eq_ok hrest
    refine List.forall_mem_cons.2 ⟨?_, ih hlater⟩
    cases hindex : face.indices.find? (count ≤ ·) with
    | none => simpa [FaceLiteral.fits] using hindex
    | some index =>
      rw [buildFace, hindex] at hfirst
      cases hfirst

theorem builds_buildFaces (span : Span) (count : Nat) (faces : List FaceLiteral) :
    Builds (buildFaces span count faces) (fun _ => faceDeeds span count faces)
      (faces.map fun face => (span, face.material)) := by
  have hfaces : (faceDeeds span count faces).filterMap Deed.face? =
      (faces.takeWhile (·.fits count)).map fun face => (span, face.material) := by
    rw [faceDeeds, List.filterMap_map]
    exact congrFun List.filterMap_eq_map' _
  intro m
  dsimp only
  rw [hfaces]
  refine ⟨(List.takeWhile_prefix _).map _, fun result hresult => ?_⟩
  have hfit := fits_of_buildFaces (Prod.ext hresult rfl)
  rw [List.takeWhile_eq_self_iff.2 hfit]

mutual
theorem builds_evaluate : ∀ e : Expr, Builds (evaluate e) (deeds e) e.faces
  | .number .. => .none fun _ => rfl
  | .string .. => .none fun _ => rfl
  | .reference .. => .none fun _ => rfl
  | .binary _ _ left right => (builds_evaluate left).bind fun _ => (builds_evaluate right).bind_none
  | .call span none callee args => by
    have h := (builds_evaluateAll args).bind (builds_callName callee)
    rw [List.append_nil] at h
    exact h.placing span
  | .call span (some receiver) callee args => by
    have h := (builds_evaluateAll args).bind (builds_callReceiver receiver callee)
    rw [List.append_nil] at h
    exact h.placing span
  | .cube .. => .none fun _ => rfl
  | .mesh span vertices faces => (builds_buildFaces span vertices.length faces).bind_none
  | .material _ properties => (builds_evaluateProperties properties).bind_none
  | .modifier _ _ properties => (builds_evaluateProperties properties).bind_none
  | .group .. => .none fun _ => rfl
theorem builds_evaluateAll : ∀ es :
    List Expr, Builds (evaluateAll es) (deedsAll es) (Expr.facesAll es)
  | [] => .none fun _ => rfl
  | first :: more => (builds_evaluate first).bind fun _ => (builds_evaluateAll more).bind_none
theorem builds_evaluateProperty : ∀ p : Property Expr,
    Builds (evaluateProperty p) (propertyDeeds p) (Expr.propertyFaces p)
  | .single _ e => (builds_evaluate e).bind_none
  | .list _ es => (builds_evaluateAll es).bind_none
theorem builds_evaluateProperties : ∀ ps : List (Property Expr),
    Builds (evaluateProperties ps) (propertiesDeeds ps) (Expr.propertiesFaces ps)
  | [] => .none fun _ => rfl
  | first :: more =>
    (builds_evaluateProperty first).bind fun _ => (builds_evaluateProperties more).bind_none
end

/-- Evaluating an expression, whether it succeeds or not, leaves scope, scene, logs, modules and the
records of all objects as they were. It reports one warning for each face that it builds and whose
material is not found, and the generators are advanced by its calls of random functions alone. The
faces that it builds are the first ones of the mesh literals in the expression, and all of them if
it succeeds. -/
theorem evaluate_leaves_scene_alone (e : Expr) (m : Machine) :
    ∃ result after, evaluate e m = (result, after) ∧
      after.scope = m.scope ∧ after.scene = m.scene ∧ after.logs = m.logs ∧
      after.store.modules = m.store.modules ∧
      (∀ id, m.store.hasObject id →
        after.store.hasObject id ∧ after.store.object id = m.store.object id) ∧
      after.notices.toList = m.notices.toList ++ (deeds e m).filterMap m.complaint? ∧
      after.store.generators = (deeds e m).foldl Deed.draw m.store.generators ∧
      (deeds e m).filterMap Deed.face? <+: e.faces ∧
      ∀ value, result = .ok value → (deeds e m).filterMap Deed.face? = e.faces := by
  obtain ⟨hgrows, hnotices, hgenerators⟩ := performs_evaluate e m
  obtain ⟨hbegins, hall⟩ := builds_evaluate e m
  exact ⟨_, _, rfl, hgrows.scope_eq, hgrows.scene_eq, hgrows.logs_eq, hgrows.store.modules,
    fun id hid => ⟨hgrows.store.hasObject hid, hgrows.store.object_eq id hid⟩, hnotices,
    hgenerators, hbegins, hall⟩

end Run
end SceneScript
