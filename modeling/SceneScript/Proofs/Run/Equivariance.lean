import SceneScript.Proofs.Run.Mirror

namespace SceneScript
variable {r : Renaming}

namespace Run

/-! ### References and calls -/

theorem mirrors_callNative (shownAs : String) {f : Native} (hf : f.function.isRandom = false)
    {args others : List Value} (h : r.SameValues args others) :
    Mirrors r r.SameValue (callNative shownAs f args) (callNative shownAs f others) := by
  refine mirrors_getStore.bind fun s t hst => ?_
  rw [Store.call_of_isRandom_eq_false hf, Store.call_of_isRandom_eq_false hf, h.1,
    Builtin.callFixed_rename]
  cases hcall : f.function.callFixed args with
  | error failure =>
    cases failure with
    | refused reason => exact .fail _
    | breakdown => exact .throw _
  | ok value =>
    have hinert : value.Inert :=
      Value.inert_of_isNumeric (Builtin.yields_callFixed f.function args value hcall)
    have hstore : Mirrors r Eq (modifyStore fun _ => s) (modifyStore fun _ => t) :=
      fun m n hmn => ⟨.ok rfl, { hmn with store := hst }⟩
    exact hstore.bind_eq fun _ => .pure ⟨(hinert r).1.symm, (hinert r).2⟩

theorem mirrors_followMembers (span : Span) (owner : String) {value other : Value}
    (h : r.SameValue value other) (members : List String) :
    Mirrors r r.SameValue (followMembers span owner value members)
      (followMembers span owner other members) := by
  induction members generalizing owner value other with
  | nil => exact .pure h
  | cons member more ih =>
    refine mirrors_getStore.bind fun s t hst => ?_
    obtain ⟨rfl, hknown⟩ := h
    obtain ⟨hmember, hfound⟩ := hst.member? hknown member
    exact ((Mirrors.ofOption _ (Renaming.rel_of_map hmember hfound)).placing span).bind
      fun _ _ hab => ih _ hab

theorem mirrors_callMember (owner : String) {id : ModuleId} (hid : r.knowsModule id) (name : String)
    {args others : List Value} (h : r.SameValues args others) :
    Mirrors r r.SameValue (callMember owner id name args)
      (callMember owner (r.module id) name others) := by
  refine mirrors_getStore.bind fun s t hst => ?_
  rw [hst.exports_eq id hid name]
  cases hvalue : (s.exports id).get? name with
  | none => exact .fail _
  | some value =>
    have hknown : value.Known r := hst.exports_known id hid name value hvalue
    cases value with
    | native f => exact mirrors_callNative _ hknown h
    | _ => exact .fail _

theorem mirrors_callName (callee : String) {args others : List Value}
    (h : r.SameValues args others) :
    Mirrors r r.SameValue (callName callee args) (callName callee others) := by
  refine mirrors_getStore.bind fun s t hst => ?_
  rw [h.head.1, Value.convert?_rename callee (hst.display_rename h.head.2)]
  cases hconvert : (args.head?.getD .nil).convert? callee s.display with
  | some converted =>
    refine .ofExcept_of_inert fun value hvalue => ?_
    rw [hvalue] at hconvert
    exact Value.inert_of_convert? hconvert
  | none =>
    refine (mirrors_lookup callee).bind fun value other hvalue => ?_
    obtain ⟨rfl, hknown⟩ := hvalue
    cases value with
    | native f => exact mirrors_callNative _ hknown h
    | _ => exact .fail _

theorem mirrors_callReceiver (receiver callee : String) {args others : List Value}
    (h : r.SameValues args others) :
    Mirrors r r.SameValue (callReceiver receiver callee args)
      (callReceiver receiver callee others) := by
  refine (mirrors_lookup receiver).bind fun value other hvalue => ?_
  obtain ⟨rfl, hknown⟩ := hvalue
  cases value with
  | module id => exact mirrors_callMember receiver hknown callee h
  | _ => exact .fail _

/-! ### Meshes and modifiers -/

theorem bind_material?_eq {found other : Option Value} (h : Option.Rel r.SameValue found other) :
    found.bind Value.material? = other.bind Value.material? := by
  cases h with
  | none => rfl
  | some h =>
    rw [h.1, Option.bind_some, Option.bind_some, Value.material?_rename]

theorem mirrors_referredMaterial? (reference : MaterialRef) :
    Mirrors r Eq (referredMaterial? reference) (referredMaterial? reference) := by
  cases reference with
  | named name => exact (mirrors_lookup? name).bind fun _ _ h => .pure (bind_material?_eq h)
  | member library item =>
    refine (mirrors_lookup? library).bind fun found other h => ?_
    cases h with
    | none => exact .pure rfl
    | @some value _ h =>
      obtain ⟨rfl, hknown⟩ := h
      cases value with
      | module id =>
        refine mirrors_getStore.bind fun s t hst => .pure ?_
        exact bind_material?_eq <|
          Renaming.rel_of_map (hst.exports_eq id hknown item) (hst.exports_known id hknown item)
      | _ => exact .pure rfl

theorem mirrors_warn (span : Span) (concern : Concern) :
    Mirrors r Eq (warn span concern) (warn span concern) := mirrors_notify _

theorem mirrors_faceMaterial (span : Span) (reference : Option MaterialRef) :
    Mirrors r Eq (faceMaterial span reference) (faceMaterial span reference) := by
  cases reference with
  | none => exact .pure rfl
  | some reference =>
    refine (mirrors_referredMaterial? reference).bind_eq fun found => ?_
    cases found with
    | some m => exact .pure rfl
    | none => exact (mirrors_warn span _).bind_eq fun _ => .pure rfl

theorem mirrors_buildFace (span : Span) (count : Nat) (face : FaceLiteral) :
    Mirrors r Eq (buildFace span count face) (buildFace span count face) := by
  unfold buildFace
  cases face.indices.find? (count ≤ ·) with
  | some index => exact .failAt _ _
  | none => exact (mirrors_faceMaterial span face.material).bind_eq fun _ => .pure rfl

theorem mirrors_buildFaces (span : Span) (count : Nat) (faces : List FaceLiteral) :
    Mirrors r Eq (buildFaces span count faces) (buildFaces span count faces) := by
  induction faces with
  | nil => exact .pure rfl
  | cons face more ih =>
    exact (mirrors_buildFace span count face).bind_eq fun _ => ih.bind_eq fun _ => .pure rfl

theorem takeBase?_rename (r : Renaming) (props : Properties) :
    takeBase? (props.rename r) =
      (takeBase? props).map fun found => (found.1.rename r, found.2.rename r) := by
  induction props with
  | nil => rfl
  | cons first more ih =>
    rw [Properties.rename, List.map_cons, takeBase?, takeBase?, ← Properties.rename, ih]
    split
    · rfl
    · cases takeBase? more <;> rfl

theorem known_of_takeBase? {props others : Properties} {base : Value} (hprops : props.Known r)
    (h : takeBase? props = some (base, others)) : base.Known r := by
  induction props generalizing others with
  | nil => cases h
  | cons first more ih =>
    obtain ⟨hfirst, hmore⟩ := List.forall_mem_cons.1 hprops
    rw [takeBase?] at h
    split at h
    · cases h
      exact hfirst
    · obtain ⟨found, hfound, heq⟩ := Option.map_eq_some_iff.1 h
      cases heq
      exact ih hmore hfound

theorem mirrors_modified (span : Span) (kind : String) {props others : Properties}
    (h : r.SameProperties props others) :
    Mirrors r r.SameValue (modified span kind props) (modified span kind others) := by
  obtain ⟨rfl, hknown⟩ := h
  unfold modified
  rw [takeBase?_rename]
  cases htake : takeBase? props with
  | none => exact .failAt _ _
  | some found =>
    obtain ⟨base, rest⟩ := found
    have hbase : base.Known r := known_of_takeBase? hknown htake
    cases base with
    | object id =>
      refine (mirrors_object ⟨rfl, hbase⟩).bind_eq fun o => ?_
      dsimp only
      rw [Modifier.ofProperties_rename]
      refine ((Mirrors.ofExcept _).placing span).bind_eq fun modifier => ?_
      exact ((Mirrors.ofExcept _).placing span).bind_eq fun changed => mirrors_newObject changed
    | _ => exact (Mirrors.typeMismatch _ ⟨rfl, hbase⟩).placing span

/-! ### Expressions -/

mutual
/-- Evaluating an expression does not depend on the numbering of objects and modules. -/
theorem mirrors_evaluate : ∀ e : Expr, Mirrors r r.SameValue (evaluate e) (evaluate e)
  | .number _ _ => .pure ⟨rfl, trivial⟩
  | .string _ _ => .pure ⟨rfl, trivial⟩
  | .reference span name members =>
    ((mirrors_lookup name).placing span).bind fun _ _ h => mirrors_followMembers span name h members
  | .binary span op left right => by
    refine (mirrors_evaluate left).bind fun l l' hl => (mirrors_evaluate right).bind
      fun w w' hw => ?_
    refine (mirrors_getStore.bind fun s t hst => ?_).placing span
    rw [hl.1, hw.1, BinaryOp.apply_rename op hl.2 hw.2 (hst.display_rename hl.2)
      (hst.display_rename hw.2)]
    exact .ofExcept_of_inert fun _ => BinaryOp.inert_of_apply
  | .call span receiver callee args => by
    refine ((mirrors_evaluateAll args).bind fun values others h => ?_).placing span
    cases receiver with
    | none => exact mirrors_callName callee h
    | some receiver => exact mirrors_callReceiver receiver callee h
  | .cube span vertices =>
    ((Mirrors.ofExcept _).placing span).bind_eq fun shape => mirrors_newObject (.ofShape shape)
  | .mesh span vertices faces =>
    (mirrors_buildFaces span vertices.length faces).bind_eq fun _ => mirrors_newObject _
  | .material span properties => by
    refine (mirrors_evaluateProperties properties).bind fun props others h => ?_
    rw [h.1, Material.ofProperties_rename]
    exact ((Mirrors.ofExcept _).placing span).map fun _ _ heq =>
      ⟨congrArg Value.material heq.symm, trivial⟩
  | .modifier span kind properties =>
    (mirrors_evaluateProperties properties).bind fun _ _ h => mirrors_modified span kind h
  | .group _ _ => mirrors_newObject _
theorem mirrors_evaluateAll : ∀ es : List Expr,
    Mirrors r r.SameValues (evaluateAll es) (evaluateAll es)
  | [] => .pure ⟨rfl, trivial⟩
  | first :: more =>
    (mirrors_evaluate first).bind fun _ _ h => (mirrors_evaluateAll more).bind fun _ _ hmore =>
      .pure (.cons h hmore)
theorem mirrors_evaluateProperty : ∀ p : Property Expr,
    Mirrors r r.SameEntry (evaluateProperty p) (evaluateProperty p)
  | .single key e => (mirrors_evaluate e).bind fun _ _ h => .pure ⟨congrArg (key, ·) h.1, h.2⟩
  | .list key es =>
    (mirrors_evaluateAll es).bind fun _ _ h =>
      .pure ⟨congrArg (fun values => (key, Value.list values)) h.1, h.2⟩
theorem mirrors_evaluateProperties : ∀ ps : List (Property Expr),
    Mirrors r r.SameProperties (evaluateProperties ps) (evaluateProperties ps)
  | [] => .pure ⟨rfl, nofun⟩
  | first :: more =>
    (mirrors_evaluateProperty first).bind fun _ _ h =>
      (mirrors_evaluateProperties more).bind fun _ _ hmore => .pure (.cons h hmore)
end

theorem mirrors_evaluateNumber (e : Expr) :
    Mirrors r Eq (evaluateNumber e) (evaluateNumber e) := by
  refine (mirrors_evaluate e).bind fun value other h => ?_
  rw [h.1, Value.number?_rename, ← h.1]
  cases value.number? with
  | some x => exact .pure rfl
  | none => exact (Mirrors.typeMismatch _ h).placing e.span

/-! ### Properties -/

theorem mirrors_evaluateTriple (t : Triple) :
    Mirrors r Eq (evaluateTriple t) (evaluateTriple t) :=
  (mirrors_evaluateNumber t.x).bind_eq fun _ => (mirrors_evaluateNumber t.y).bind_eq fun _ =>
    (mirrors_evaluateNumber t.z).bind_eq fun _ => .pure rfl

theorem mirrors_vectorOf (expected : String) {value other : Value} (h : r.SameValue value other) :
    Mirrors r Eq (vectorOf expected value) (vectorOf expected other) := by
  unfold vectorOf
  rw [h.1, Value.vector?_rename, ← h.1]
  cases value.vector? with
  | some v => exact .pure rfl
  | none => exact .typeMismatch _ h

theorem mirrors_evaluateVector (value : AssignedValue) :
    Mirrors r Eq (evaluateVector value) (evaluateVector value) := by
  cases value with
  | triple t => exact mirrors_evaluateTriple t
  | expr e => exact (mirrors_evaluate e).bind fun _ _ h => mirrors_vectorOf _ h
  | relative anchor offset => exact .fail _

theorem mirrors_evaluatePosition (value : AssignedValue) :
    Mirrors r Eq (evaluatePosition value) (evaluatePosition value) := by
  cases value with
  | relative anchor offset =>
    refine (mirrors_objectNamed anchor).bind fun id other h =>
      (mirrors_object h).bind_eq fun o => ?_
    cases offset with
    | some t => exact (mirrors_evaluateTriple t).bind_eq fun _ => .pure rfl
    | none => exact .pure rfl
  | expr e => exact mirrors_evaluateVector (.expr e)
  | triple t => exact mirrors_evaluateVector (.triple t)

theorem mirrors_evaluateScale (value : AssignedValue) :
    Mirrors r Eq (evaluateScale value) (evaluateScale value) := by
  cases value with
  | expr e =>
    refine (mirrors_evaluate e).bind fun value other h => ?_
    obtain ⟨rfl, hknown⟩ := h
    cases value with
    | number x => exact .pure rfl
    | _ => exact mirrors_vectorOf _ ⟨rfl, hknown⟩
  | triple t => exact mirrors_evaluateVector (.triple t)
  | relative anchor offset => exact mirrors_evaluateVector (.relative anchor offset)

/-- A fault turns into a warning on both sides, as it is the same fault. -/
theorem mirrors_evaluateKnown? (e : Expr) :
    Mirrors r (Option.Rel r.SameValue) (evaluateKnown? e) (evaluateKnown? e) := by
  intro m n hmn
  obtain ⟨hagree, hafter⟩ := mirrors_evaluate e m n hmn
  unfold evaluateKnown?
  rcases hm : evaluate e m with ⟨ended, after⟩
  rcases hn : evaluate e n with ⟨ended', after'⟩
  rw [hm, hn] at hagree hafter
  cases hagree with
  | ok h => exact ⟨.ok (.some h), hafter⟩
  | error stop =>
    cases stop with
    | breakdown => exact ⟨.error _, hafter⟩
    | fault d =>
      have hwarned : Mirrors r (Option.Rel r.SameValue)
          (do warn e.span (.unresolvedMaterial d.cause); return none)
          (do warn e.span (.unresolvedMaterial d.cause); return none) :=
        (mirrors_warn e.span _).bind_eq fun _ => .pure .none
      dsimp only
      split
      · exact hwarned after after' hafter
      · exact hwarned after after' hafter
      · exact ⟨.error _, hafter⟩

theorem mirrors_evaluateMaterial (e : Expr) :
    Mirrors r Eq (evaluateMaterial e) (evaluateMaterial e) := by
  refine (mirrors_evaluateKnown? e).bind fun known other h => ?_
  have hwarned : ∀ {value other : Value} (found : Option Material), r.SameValue value other →
      Mirrors r Eq (do
        if found.isNone then warn e.span (.notAMaterial (← display value))
        return found) (do
        if found.isNone then warn e.span (.notAMaterial (← display other))
        return found) := by
    intro value other found h
    cases found with
    | some m => exact .pure rfl
    | none =>
      exact (mirrors_display h).bind_eq fun _ => (mirrors_warn e.span _).bind_eq fun _ => .pure rfl
  cases h with
  | none => exact .pure rfl
  | @some value _ h =>
    obtain ⟨rfl, hknown⟩ := h
    cases value with
    | nil => exact .pure rfl
    | material m => exact .pure rfl
    | string name =>
      refine (mirrors_lookup? name).bind fun found other h => ?_
      rw [bind_material?_eq h]
      exact (Mirrors.pure rfl).bind_eq fun found => hwarned found ⟨rfl, hknown⟩
    | _ => exact (Mirrors.pure rfl).bind_eq fun found => hwarned found ⟨rfl, hknown⟩

/-! ### Changes to objects -/

theorem mirrors_paintChildren (material : Option Material) (names : List String) :
    Mirrors r Eq (paintChildren material names) (paintChildren material names) := by
  induction names with
  | nil => exact .pure rfl
  | cons name more ih =>
    refine mirrors_get.bind fun m n hmn => ?_
    rw [hmn.scene_eq, Table.get?_map]
    cases hid : m.scene.get? name with
    | none => exact ih
    | some id =>
      have hsame : r.SameObject id (r.object id) := ⟨rfl, hmn.scene_known name id hid⟩
      refine (mirrors_object hsame).bind_eq fun o => ?_
      dsimp only
      split
      · exact ih
      · exact (mirrors_modifyObject hsame _).bind_eq fun _ => ih

theorem mirrors_paint {id other : ObjectId} (h : r.SameObject id other)
    (material : Option Material) : Mirrors r Eq (paint id material) (paint other material) := by
  refine (mirrors_object h).bind_eq fun o => ?_
  split
  · exact mirrors_paintChildren material _
  · exact mirrors_modifyObject h _

theorem mirrors_selectObject (target : String) (child : Option String) :
    Mirrors r r.SameObject (selectObject target child) (selectObject target child) := by
  refine (mirrors_objectNamed target).bind fun id other h => ?_
  cases child with
  | none => exact .pure h
  | some child =>
    refine (mirrors_object h).bind_eq fun o => ?_
    dsimp only
    split
    · exact mirrors_objectNamed child
    · exact (Mirrors.fail _).bind_eq fun _ => mirrors_objectNamed child

theorem mirrors_setProperty (target : String) (child : Option String) (property : String)
    (value : AssignedValue) :
    Mirrors r Eq (setProperty target child property value)
      (setProperty target child property value) := by
  refine (mirrors_selectObject target child).bind fun id other h => ?_
  have hposition : Mirrors r Eq (setPosition id value) (setPosition other value) :=
    (mirrors_evaluatePosition value).bind_eq fun _ => mirrors_modifyObject h _
  have hrotation : Mirrors r Eq (setRotation id value) (setRotation other value) :=
    (mirrors_evaluateVector value).bind_eq fun _ => mirrors_modifyObject h _
  split
  · exact hposition
  · exact hposition
  · exact hrotation
  · exact hrotation
  · exact (mirrors_evaluateScale value).bind_eq fun _ => mirrors_modifyObject h _
  · cases value with
    | expr e => exact (mirrors_evaluateMaterial e).bind_eq fun material => mirrors_paint h material
    | triple t => exact .fail _
    | relative anchor offset => exact .fail _
  · exact .fail _

theorem mirrors_callRotate (target : String) (args : List Expr) (excluded : Option String) :
    Mirrors r Eq (callRotate target args excluded) (callRotate target args excluded) := by
  refine (mirrors_objectNamed target).bind fun id other h => ?_
  cases args with
  | nil => exact .fail _
  | cons angle more =>
    refine (mirrors_evaluateNumber angle).bind_eq fun degrees => ?_
    refine (mirrors_modifyObject h _).bind_eq fun _ => ?_
    cases excluded with
    | none => exact .pure rfl
    | some name =>
      exact (mirrors_objectNamed name).bind fun _ _ hother => mirrors_modifyObject hother _

theorem moveOffset?_rename (r : Renaming) (values : List Value) :
    moveOffset? (Value.renameAll r values) = moveOffset? values := by
  rcases values with _ | ⟨first, _ | ⟨second, more⟩⟩
  · rfl
  · exact Value.vector?_rename r first
  · exact Value.vector?_rename r (.list (first :: second :: more))

theorem mirrors_callMove (target : String) (args : List Expr) :
    Mirrors r Eq (callMove target args) (callMove target args) := by
  refine (mirrors_objectNamed target).bind fun id other h => ?_
  refine (mirrors_evaluateAll args).bind fun values others hvalues => ?_
  rw [hvalues.1, Value.length_renameAll, moveOffset?_rename]
  cases moveOffset? values with
  | none => exact (Mirrors.fail _).bind_eq fun _ => mirrors_modifyObject h _
  | some offset => exact (Mirrors.pure rfl).bind_eq fun _ => mirrors_modifyObject h _

theorem mirrors_callMethod (target method : String) (args : List Expr) (excluded : Option String) :
    Mirrors r Eq (callMethod target method args excluded)
      (callMethod target method args excluded) := by
  refine (mirrors_lookup? target).bind fun found other h => ?_
  cases h with
  | none =>
    dsimp only
    split
    · exact mirrors_callRotate target args excluded
    · exact mirrors_callMove target args
    · exact .pure rfl
  | @some value _ h =>
    obtain ⟨rfl, hknown⟩ := h
    cases value with
    | module id =>
      exact (mirrors_evaluateAll args).bind fun _ _ hvalues =>
        (mirrors_callMember target hknown method hvalues).bind fun _ _ _ => .pure rfl
    | _ =>
      dsimp only [Value.rename]
      split
      · exact mirrors_callRotate target args excluded
      · exact mirrors_callMove target args
      · exact .pure rfl

/-! ### Statements -/

theorem mirrors_adopt (parent : String) (names : List String) :
    Mirrors r Eq (adopt parent names) (adopt parent names) := by
  induction names with
  | nil => exact .pure rfl
  | cons name more ih =>
    refine (mirrors_lookup? name).bind fun found other h => ?_
    cases h with
    | none => exact ih
    | @some value _ h =>
      obtain ⟨rfl, hknown⟩ := h
      cases value with
      | object id => exact (mirrors_modifyObject ⟨rfl, hknown⟩ _).bind_eq fun _ => ih
      | _ => exact ih

theorem mirrors_bindObject (name : String) {value other : Value} (h : r.SameValue value other) :
    Mirrors r r.SameValue (bindObject name value) (bindObject name other) := by
  obtain ⟨rfl, hknown⟩ := h
  cases value with
  | object id =>
    refine (mirrors_object ⟨rfl, hknown⟩).bind_eq fun o => ?_
    refine (mirrors_addObject _).bind fun bound other hbound => ?_
    refine (mirrors_show name hbound).bind_eq fun _ => ?_
    exact (mirrors_adopt name _).bind_eq fun _ => .pure ⟨congrArg Value.object hbound.1, hbound.2⟩
  | _ => exact .pure ⟨rfl, hknown⟩

theorem mirrors_repeatBody {α : Type} {test : Run (Option α)} {body : α → Run Unit}
    {exceeded : Run Unit} (htest : Mirrors r Eq test test)
    (hbody : ∀ a, Mirrors r Eq (body a) (body a)) (hexceeded : Mirrors r Eq exceeded exceeded)
      (n : Nat) :
    Mirrors r Eq (repeatBody test body exceeded n) (repeatBody test body exceeded n) := by
  induction n with
  | zero =>
    refine htest.bind_eq fun found => ?_
    cases found with
    | none => exact .pure rfl
    | some a => exact hexceeded
  | succ n ih =>
    refine htest.bind_eq fun found => ?_
    cases found with
    | none => exact .pure rfl
    | some a => exact (hbody a).bind_eq fun _ => ih

theorem mirrors_readCounter (counter : String) :
    Mirrors r Eq (readCounter counter) (readCounter counter) := by
  refine (mirrors_lookup counter).bind fun value other h => ?_
  rw [h.1, Value.number?_rename, ← h.1]
  cases value.number? with
  | some x => exact .pure rfl
  | none => exact .typeMismatch _ h

theorem mirrors_nextStep? (span : Span) (counter : String) (stop : Expr) (step : Option Expr) :
    Mirrors r Eq (nextStep? span counter stop step) (nextStep? span counter stop step) := by
  refine ((mirrors_readCounter counter).placing span).bind_eq fun current => ?_
  refine ((mirrors_evaluateNumber stop).placing span).bind_eq fun last => ?_
  cases step with
  | some step =>
    exact ((mirrors_evaluateNumber step).placing span).bind_eq fun _ => .pure rfl
  | none => exact (Mirrors.pure rfl).bind_eq fun _ => .pure rfl

mutual
/-- Executing a statement does not depend on the numbering of objects and modules. -/
theorem mirrors_execute : ∀ s : Stmt, Mirrors r Eq (execute s) (execute s)
  | .imports _ => .pure rfl
  | .assign span name confined value =>
    ((mirrors_evaluate value).placing span).bind fun _ _ h => (mirrors_bindObject name h).bind
      fun _ _ hbound => mirrors_bindName name confined hbound
  | .setProperty span target child property value =>
    (mirrors_setProperty target child property value).placing span
  | .callMethod span target method args excluded =>
    (mirrors_callMethod target method args excluded).placing span
  | .print span value =>
    ((mirrors_evaluate value).placing span).bind fun _ _ h => (mirrors_display h).bind_eq
      fun line => mirrors_say line
  | .branch span condition thenBlock none => by
    refine ((mirrors_evaluate condition).placing span).bind fun value other h => ?_
    rw [h.1, Value.isTrue_rename]
    split
    · exact mirrors_inBlock (mirrors_executeAll thenBlock)
    · exact .pure rfl
  | .branch span condition thenBlock (some elseBlock) => by
    refine ((mirrors_evaluate condition).placing span).bind fun value other h => ?_
    rw [h.1, Value.isTrue_rename]
    split
    · exact mirrors_inBlock (mirrors_executeAll thenBlock)
    · exact mirrors_inBlock (mirrors_executeAll elseBlock)
  | .whileLoop span condition body => by
    have htest : Mirrors r Eq (conditionHolds? span condition)
      (conditionHolds? span condition) := by
      refine ((mirrors_evaluate condition).placing span).bind fun value other h => .pure ?_
      rw [h.1, Value.isTrue_rename]
    exact mirrors_repeatBody htest (fun _ => mirrors_inBlock (mirrors_executeAll body))
      (mirrors_notify _) maxIterations
  | .forLoop span counter start stop step body => by
    have hcounter (x : Float) : Mirrors r Eq (modifyScope (·.assign counter (.number x)))
        (modifyScope (·.assign counter (.number x))) :=
      mirrors_bindName counter false ⟨rfl, trivial⟩
    refine ((mirrors_evaluateNumber start).placing span).bind_eq fun first => ?_
    refine (hcounter first).bind_eq fun _ => ?_
    refine mirrors_repeatBody (mirrors_nextStep? span counter stop step) (fun size => ?_)
      (mirrors_notify _) maxIterations
    exact (mirrors_inBlock (mirrors_executeAll body)).bind_eq fun _ =>
      ((mirrors_readCounter counter).placing span).bind_eq fun _ => hcounter _
theorem mirrors_executeAll : ∀ block : List Stmt, Mirrors r Eq (executeAll block) (executeAll block)
  | [] => .pure rfl
  | first :: more =>
    ((mirrors_execute first).placing first.span).bind_eq fun _ => mirrors_executeAll more
end

end Run

/-! ### Programs -/

/-- Two results show the same: objects, logs and notices. What they export is left to the stores. -/
structure Result.Same (a b : Result) : Prop where
  scene_eq : b.scene = a.scene
  logs_eq : b.logs = a.logs
  notices_eq : b.notices = a.notices

namespace Machine
variable {m n : Machine}

theorem Mirrors.runStatement (h : m.Mirrors r n) (s : Stmt) :
    Run.Agree (Machine.Mirrors r) (m.runStatement s) (n.runStatement s) := by
  obtain ⟨hagree, hafter⟩ := Run.mirrors_execute s m n h
  unfold Machine.runStatement
  rcases hm : Run.execute s m with ⟨ended, after⟩
  rcases hn : Run.execute s n with ⟨ended', after'⟩
  rw [hm, hn] at hagree hafter
  cases hagree with
  | ok _ => exact .ok hafter
  | error stop =>
    cases stop with
    | fault d =>
      exact .ok { hafter with
        notices_eq := congrArg (·.push (.error (d.orSpan s.span))) hafter.notices_eq }
    | breakdown => exact .error _

theorem Mirrors.foldlM (h : m.Mirrors r n) (statements : List Stmt) :
    Run.Agree (Machine.Mirrors r) (statements.foldlM Machine.runStatement m)
      (statements.foldlM Machine.runStatement n) := by
  induction statements generalizing m n with
  | nil => exact .ok h
  | cons first more ih =>
    rw [List.foldlM_cons, List.foldlM_cons]
    rcases (h.runStatement first).cases with ⟨after, after', hm, hn, hafter⟩ | ⟨stop, hm, hn⟩
    · rw [hm, hn]
      exact ih hafter
    · rw [hm, hn]
      exact .error stop

/-- The objects of a scene are shown as they are, whatever their identities. -/
theorem Mirrors.result (h : m.Mirrors r n) : m.result.Same n.result where
  scene_eq := by
    apply Table.ext_get?
    intro name
    simp only [Machine.result, Table.get?_map, h.scene_eq, Option.map_map]
    cases hid : m.scene.get? name with
    | none => rfl
    | some id => exact congrArg some (h.store.object_eq id (h.scene_known name id hid))
  logs_eq := congrArg Array.toList h.logs_eq
  notices_eq := congrArg Array.toList h.notices_eq

end Machine

/-- Programs show the same on stores that differ in their numbering only. -/
theorem Program.run_agree {modules modules' : Table Value} {s t : Store}
    (h : (Machine.start modules s).Mirrors r (Machine.start modules' t)) (p : Program) :
    Run.Agree Result.Same (p.run modules s) (p.run modules' t) := by
  unfold Program.run
  rcases (h.foldlM p.statements).cases with ⟨after, after', hm, hn, hafter⟩ | ⟨stop, hm, hn⟩
  · rw [hm, hn]
    exact .ok hafter.result
  · rw [hm, hn]
    exact .error stop

end SceneScript
