import SceneScript.Proofs.Program.Places
import SceneScript.Proofs.Run.Keeps
import SceneScript.Proofs.Run.Refusal

namespace SceneScript

def Notice.IsReport (P : Span → Prop) : Notice → Prop
  | error d => ∃ most s, d = .placed (.iterationLimit most) s ∧ P s
  | warning line _ => ∃ s, P s ∧ s.line = line
  | missingModule .. => False
  | forwarded .. => False

/-- The fault of a statement, at a place with the property or at none yet. -/
structure Diagnostic.FailsAt (P : Span → Prop) (d : Diagnostic) : Prop where
  cause : d.cause.failsStatement = true
  place : ∀ s ∈ d.span, P s
  unquoted : d.sourceLine = none

def Machine.ReportsTo (P : Span → Prop) (m after : Machine) : Prop :=
  ∃ entries, after.notices.toList = m.notices.toList ++ entries ∧ ∀ n ∈ entries, n.IsReport P

section
variable {P : Span → Prop} {m after : Machine} {cause : Cause}

theorem Diagnostic.FailsAt.of (h : cause.failsStatement = true) : (of cause).FailsAt P where
  cause := h
  place := nofun
  unquoted := rfl

theorem Diagnostic.FailsAt.orSpan {d : Diagnostic} (h : d.FailsAt P) {span : Span}
    (hspan : P span) : (d.orSpan span).FailsAt P where
  cause := h.cause
  place s hs := by
    cases hs
    cases hd : d.span with
    | none => exact hspan
    | some s => exact h.place s hd
  unquoted := h.unquoted

theorem Diagnostic.FailsAt.placed (h : cause.failsStatement = true) {span : Span} (hspan : P span) :
    (placed cause span).FailsAt P := (FailsAt.of h).orSpan hspan

theorem Machine.ReportsTo.of_eq (h : after.notices = m.notices) : m.ReportsTo P after :=
  ⟨[], by rw [h, List.append_nil], nofun⟩

instance : IsPreorder Machine (Machine.ReportsTo P) where
  refl _ := .of_eq rfl
  trans m between after := by
    rintro ⟨entries, hentries, hall⟩ ⟨others, hothers, hrest⟩
    refine ⟨entries ++ others, ?_, List.forall_mem_append.2 ⟨hall, hrest⟩⟩
    rw [hothers, hentries, List.append_assoc]

end

namespace Run
variable {α β : Type} {P : Span → Prop}

/-- A run of `x` fails and reports at places with the property only. -/
structure Reports (P : Span → Prop) (x : Run α) : Prop where
  fault (m after : Machine) (d : Diagnostic) :
    x m = (.error (.fault d), after) → d.FailsAt P
  keeps : Keeps (Machine.ReportsTo P) x

section Laws
variable {x : Run α} {f : α → Run β}

theorem Reports.pure (a : α) : Reports P (pure a : Run α) where
  fault _ _ _ h := nomatch h
  keeps := .pure a

/-- A run that succeeds without a notice. -/
theorem Reports.of_ok (h : ∀ m, ∃ a after, x m = (.ok a, after) ∧ after.notices = m.notices) :
    Reports P x where
  fault m after d hx := by
    obtain ⟨a, between, hm, -⟩ := h m
    rw [hm] at hx
    cases hx
  keeps m := by
    obtain ⟨a, between, hm, hnotices⟩ := h m
    rw [hm]
    exact .of_eq hnotices

theorem Reports.bind (hx : Reports P x) (hf : ∀ a, Reports P (f a)) : Reports P (x >>= f) where
  fault m after d h := by
    rcases hm : x m with ⟨stop | a, between⟩
    · rw [bind_apply_of_error f hm] at h
      cases h
      exact hx.fault m after d hm
    · rw [bind_apply_of_ok f hm] at h
      exact (hf a).fault between after d h
  keeps := hx.keeps.bind fun a => (hf a).keeps

theorem Reports.map (g : α → β) (hx : Reports P x) : Reports P (g <$> x) := by
  rw [map_eq_pure_bind]
  exact hx.bind fun a => .pure (g a)

theorem Reports.ite {c : Prop} [Decidable c] {y : Run α} (hx : Reports P x) (hy : Reports P y) :
    Reports P (if c then x else y) := by
  split
  · exact hx
  · exact hy

theorem Reports.fail {cause : Cause} (h : cause.failsStatement = true) :
    Reports P (fail cause : Run α) where
  fault m after d heq := by
    cases heq
    exact .of h
  keeps := .fail cause

theorem Reports.failAt {cause : Cause} (h : cause.failsStatement = true) {span : Span}
    (hspan : P span) : Reports P (failAt cause span : Run α) where
  fault m after d heq := by
    cases heq
    exact .placed h hspan
  keeps := .failAt cause span

theorem Reports.breakdown : Reports P (throw .breakdown : Run α) where
  fault _ _ _ h := nomatch h
  keeps := .throw _

/-- A fault that has no place yet is at a place with the property from here on. -/
theorem Reports.placing {span : Span} (hspan : P span) (hx : Reports P x) :
    Reports P (placing span x) where
  fault m after d h := by
    rw [placing_apply] at h
    rcases hm : x m with ⟨(d' | _) | a, between⟩ <;> rw [hm] at h <;> cases h
    exact (hx.fault m between d' hm).orSpan hspan
  keeps := hx.keeps.placing span

theorem Reports.inBlock {x : Run α} (hx : Reports P x) : Reports P (inBlock x) where
  fault m after d h := by
    rcases hm : x { m with scope := m.scope.push } with ⟨result, between⟩
    simp only [Run.inBlock, hm] at h
    cases h
    exact hx.fault _ between d hm
  keeps m := hx.keeps { m with scope := m.scope.push }

theorem Reports.typeMismatch (expected : String) (got : Value) :
    Reports P (typeMismatch expected got : Run α) := .fail rfl

theorem Reports.ofExcept {e : Except Cause α} (h : RefusesInRun e) : Reports P (ofExcept e) := by
  cases e with
  | error cause => exact .fail (h cause rfl)
  | ok a => exact .pure a

theorem Reports.ofOption {cause : Cause} (h : cause.failsStatement = true) (o : Option α) :
    Reports P (ofOption cause o) := by
  cases o with
  | none => exact .fail h
  | some a => exact .pure a

end Laws

theorem reports_get : Reports P (get : Run Machine) := .of_ok fun m => ⟨m, m, rfl, rfl⟩

theorem reports_getStore : Reports P getStore := .of_ok fun m => ⟨m.store, m, rfl, rfl⟩

theorem reports_lookup? (name : String) : Reports P (lookup? name) :=
  .of_ok fun m => ⟨_, m, rfl, rfl⟩

theorem reports_lookup (name : String) : Reports P (lookup name) :=
  (reports_lookup? name).bind fun _ => .ofOption rfl _

theorem reports_objectNamed (name : String) : Reports P (objectNamed name) :=
  (reports_lookup? name).bind fun _ => .ofOption rfl _

theorem reports_object (id : ObjectId) : Reports P (object id) := .of_ok fun m => ⟨_, m, rfl, rfl⟩

theorem reports_display (value : Value) : Reports P (display value) :=
  .of_ok fun m => ⟨_, m, rfl, rfl⟩

theorem reports_addObject (o : Object) : Reports P (addObject o) := .of_ok fun _ => ⟨_, _, rfl, rfl⟩

theorem reports_modifyStore (f : Store → Store) : Reports P (modifyStore f) :=
  .of_ok fun _ => ⟨(), _, rfl, rfl⟩

theorem reports_modifyScope (f : Scope → Scope) : Reports P (modifyScope f) :=
  .of_ok fun _ => ⟨(), _, rfl, rfl⟩

theorem reports_modifyObject (id : ObjectId) (f : Object → Object) :
    Reports P (modifyObject id f) :=
  reports_modifyStore _

theorem reports_notify {n : Notice} (h : n.IsReport P) : Reports P (notify n) where
  fault _ _ _ h := nomatch h
  keeps m := ⟨[n], by rw [notify_apply, Array.toList_push], by simpa using h⟩

theorem reports_warn {span : Span} (hspan : P span) (concern : Concern) :
    Reports P (warn span concern) := reports_notify ⟨span, hspan, rfl⟩

theorem reports_callNative (shownAs : String) (f : Native) (args : List Value) :
    Reports P (callNative shownAs f args) := by
  refine reports_getStore.bind fun store => ?_
  rcases store.call f args with (reason | _) | ⟨value, store⟩
  · exact .fail rfl
  · exact .breakdown
  · exact (reports_modifyStore _).bind fun _ => .pure value

/-! ### Expressions -/

theorem reports_followMembers {span : Span} (hspan : P span) (owner : String) (value : Value)
    (members : List String) : Reports P (followMembers span owner value members) := by
  induction members generalizing owner value with
  | nil => exact .pure value
  | cons member more ih =>
    exact reports_getStore.bind fun _ =>
      ((Reports.ofOption rfl _).placing hspan).bind fun _ => ih _ _

theorem reports_callMember (owner : String) (id : ModuleId) (name : String) (args : List Value) :
    Reports P (callMember owner id name args) := by
  refine reports_getStore.bind fun store => ?_
  cases (store.exports id).get? name with
  | none => exact .fail rfl
  | some value =>
    cases value with
    | native f => exact reports_callNative _ f args
    | _ => exact .fail rfl

theorem reports_callName (callee : String) (args : List Value) :
    Reports P (callName callee args) := by
  refine reports_getStore.bind fun store => ?_
  cases hconvert : (args.head?.getD .nil).convert? callee store.display with
  | some converted => exact .ofExcept (Value.refuses_convert? _ hconvert)
  | none =>
    refine (reports_lookup callee).bind fun value => ?_
    cases value with
    | native f => exact reports_callNative _ f args
    | _ => exact .fail rfl

theorem reports_callReceiver (receiver callee : String) (args : List Value) :
    Reports P (callReceiver receiver callee args) := by
  refine (reports_lookup receiver).bind fun value => ?_
  cases value with
  | module id => exact reports_callMember receiver id callee args
  | _ => exact .fail rfl

theorem reports_referredMaterial? (reference : MaterialRef) :
    Reports P (referredMaterial? reference) := by
  cases reference with
  | named name => exact (reports_lookup? name).bind fun _ => .pure _
  | member library item =>
    refine (reports_lookup? library).bind fun value => ?_
    rcases value with _ | value
    · exact .pure none
    · cases value with
      | module id => exact reports_getStore.bind fun _ => .pure _
      | _ => exact .pure none

theorem reports_faceMaterial {span : Span} (hspan : P span) (reference : Option MaterialRef) :
    Reports P (faceMaterial span reference) := by
  cases reference with
  | none => exact .pure none
  | some reference =>
    refine (reports_referredMaterial? reference).bind fun found => ?_
    cases found with
    | some m => exact .pure _
    | none => exact (reports_warn hspan _).bind fun _ => .pure none

theorem reports_buildFace {span : Span} (hspan : P span) (count : Nat) (face : FaceLiteral) :
    Reports P (buildFace span count face) := by
  unfold buildFace
  cases face.indices.find? (count ≤ ·) with
  | some index => exact .failAt rfl hspan
  | none => exact (reports_faceMaterial hspan face.material).bind fun _ => .pure _

theorem reports_buildFaces {span : Span} (hspan : P span) (count : Nat) (faces : List FaceLiteral) :
    Reports P (buildFaces span count faces) := by
  induction faces with
  | nil => exact .pure []
  | cons face more ih =>
    exact (reports_buildFace hspan count face).bind fun _ => ih.bind fun _ => .pure _

theorem reports_modified {span : Span} (hspan : P span) (kind : String) (props : Properties) :
    Reports P (modified span kind props) := by
  unfold modified
  rcases takeBase? props with _ | ⟨base, others⟩
  · exact .failAt rfl hspan
  · cases base with
    | object id =>
      refine (reports_object id).bind fun o => ?_
      refine ((Reports.ofExcept (Modifier.refuses_ofProperties _ _)).placing hspan).bind fun m => ?_
      refine ((Reports.ofExcept (m.refuses_apply _)).placing hspan).bind fun changed => ?_
      exact (reports_addObject changed).map _
    | _ => exact (Reports.typeMismatch _ _).placing hspan

mutual
theorem reports_evaluate : ∀ e : Expr, e.Placed P → Reports P (evaluate e)
  | .number _ x, _ => .pure (Value.number x)
  | .string _ text, _ => .pure (Value.string text)
  | .reference _ name members, hspan =>
    ((reports_lookup name).placing hspan).bind fun value =>
      reports_followMembers hspan name value members
  | .binary _ op left right, ⟨hspan, hleft, hright⟩ =>
    (reports_evaluate left hleft).bind fun _ => (reports_evaluate right hright).bind fun _ =>
      (reports_getStore.bind fun _ => .ofExcept (op.refuses_apply _ _ _)).placing hspan
  | .call _ receiver callee args, ⟨hspan, hargs⟩ => by
    refine ((reports_evaluateAll args hargs).bind fun values => ?_).placing hspan
    cases receiver with
    | none => exact reports_callName callee values
    | some receiver => exact reports_callReceiver receiver callee values
  | .cube _ vertices, hspan =>
    ((Reports.ofExcept (Shape.refuses_cube vertices)).placing hspan).bind fun shape =>
      (reports_addObject (.ofShape shape)).map _
  | .mesh _ vertices faces, hspan =>
    (reports_buildFaces hspan vertices.length faces).bind fun _ => (reports_addObject _).map _
  | .material _ properties, ⟨hspan, hproperties⟩ =>
    (reports_evaluateProperties properties hproperties).bind fun props =>
      ((Reports.ofExcept (Material.refuses_ofProperties props)).placing hspan).map _
  | .modifier _ kind properties, ⟨hspan, hproperties⟩ =>
    (reports_evaluateProperties properties hproperties).bind fun props =>
      reports_modified hspan kind props
  | .group _ _, _ => (reports_addObject _).map _
theorem reports_evaluateAll : ∀ es : List Expr, Expr.AllPlaced P es → Reports P (evaluateAll es)
  | [], _ => .pure []
  | first :: more, ⟨hfirst, hmore⟩ =>
    (reports_evaluate first hfirst).bind fun _ => (reports_evaluateAll more hmore).bind
      fun _ => .pure _
theorem reports_evaluateProperty :
    ∀ p : Property Expr, Expr.PropertyPlaced P p → Reports P (evaluateProperty p)
  | .single _ e, he => (reports_evaluate e he).bind fun _ => .pure _
  | .list _ es, hes => (reports_evaluateAll es hes).bind fun _ => .pure _
theorem reports_evaluateProperties :
    ∀ ps : List (Property Expr), Expr.PropertiesPlaced P ps → Reports P (evaluateProperties ps)
  | [], _ => .pure []
  | first :: more, ⟨hfirst, hmore⟩ =>
    (reports_evaluateProperty first hfirst).bind fun _ =>
      (reports_evaluateProperties more hmore).bind fun _ => .pure _
end

theorem reports_evaluateNumber {e : Expr} (he : e.Placed P) : Reports P (evaluateNumber e) := by
  refine (reports_evaluate e he).bind fun value => ?_
  cases value.number? with
  | some x => exact .pure x
  | none => exact (Reports.typeMismatch _ _).placing he.span

/-! ### Properties and methods -/

theorem reports_evaluateTriple {t : Triple} (ht : t.Has (Expr.Placed P)) :
    Reports P (evaluateTriple t) :=
  (reports_evaluateNumber ht.x).bind fun _ => (reports_evaluateNumber ht.y).bind fun _ =>
    (reports_evaluateNumber ht.z).bind fun _ => .pure _

theorem reports_vectorOf (expected : String) (value : Value) :
    Reports P (vectorOf expected value) := by
  unfold vectorOf
  cases value.vector? with
  | some v => exact .pure v
  | none => exact .typeMismatch _ _

theorem reports_evaluateVector {value : AssignedValue} (hvalue : value.Has (Expr.Placed P)) :
    Reports P (evaluateVector value) := by
  cases value with
  | triple t => exact reports_evaluateTriple hvalue
  | expr e => exact (reports_evaluate e hvalue).bind fun _ => reports_vectorOf _ _
  | relative anchor offset => exact .fail rfl

theorem reports_evaluatePosition {value : AssignedValue} (hvalue : value.Has (Expr.Placed P)) :
    Reports P (evaluatePosition value) := by
  have hvector : Reports P (evaluateVector value) := reports_evaluateVector hvalue
  cases value with
  | relative anchor offset =>
    refine (reports_objectNamed anchor).bind fun id => (reports_object id).bind fun base => ?_
    cases offset with
    | some t => exact (reports_evaluateTriple (hvalue t rfl)).bind fun _ => .pure _
    | none => exact .pure _
  | expr e => exact hvector
  | triple t => exact hvector

theorem reports_evaluateScale {value : AssignedValue} (hvalue : value.Has (Expr.Placed P)) :
    Reports P (evaluateScale value) := by
  have hvector : Reports P (evaluateVector value) := reports_evaluateVector hvalue
  cases value with
  | expr e =>
    refine (reports_evaluate e hvalue).bind fun value => ?_
    cases value with
    | number x => exact .pure _
    | _ => exact reports_vectorOf _ _
  | triple t => exact hvector
  | relative anchor offset => exact hvector

/-- What is wrong with a material is a warning, at the place of the expression. -/
theorem reports_evaluateKnown? {e : Expr} (he : e.Placed P) : Reports P (evaluateKnown? e) := by
  have hwarned : ∀ cause, Reports P (do
      warn e.span (.unresolvedMaterial cause)
      return (none : Option Value)) :=
    fun cause => (reports_warn he.span _).bind fun _ => .pure none
  have hevaluate := reports_evaluate e he
  refine ⟨fun m after d h => ?_, fun m => ?_⟩
  · unfold evaluateKnown? at h
    rcases hm : evaluate e m with ⟨(d' | _) | value, between⟩ <;> rw [hm] at h
    · dsimp only at h
      split at h
      · exact (hwarned _).fault _ _ _ h
      · exact (hwarned _).fault _ _ _ h
      · cases h
        exact hevaluate.fault m after d hm
    · cases h
    · cases h
  · unfold evaluateKnown?
    rcases hm : evaluate e m with ⟨(d' | _) | value, between⟩
    · have hbetween : m.ReportsTo P between := hevaluate.keeps.rel hm
      dsimp only
      split
      · exact IsTrans.trans _ _ _ hbetween ((hwarned _).keeps between)
      · exact IsTrans.trans _ _ _ hbetween ((hwarned _).keeps between)
      · exact hbetween
    · exact hevaluate.keeps.rel hm
    · exact hevaluate.keeps.rel hm

theorem reports_evaluateMaterial {e : Expr} (he : e.Placed P) : Reports P (evaluateMaterial e) := by
  refine (reports_evaluateKnown? he).bind fun known => ?_
  have hwarned : ∀ (value : Value) (found : Option Material), Reports P (do
      if found.isNone then warn e.span (.notAMaterial (← display value))
      return found) := by
    intro value found
    cases found with
    | some m => exact .pure _
    | none =>
      exact (reports_display value).bind fun _ => (reports_warn he.span _).bind fun _ => .pure none
  rcases known with _ | value
  · exact .pure none
  · cases value with
    | nil => exact .pure none
    | material m => exact .pure _
    | string name => exact (reports_lookup? name).bind fun _ => (Reports.pure _).bind (hwarned _)
    | _ => exact (Reports.pure none).bind (hwarned _)

theorem reports_paintChildren (material : Option Material) (names : List String) :
    Reports P (paintChildren material names) := by
  induction names with
  | nil => exact .pure ()
  | cons name more ih =>
    refine reports_get.bind fun m => ?_
    cases m.scene.get? name with
    | none => exact (Reports.pure ()).bind fun _ => ih
    | some id =>
      refine (reports_object id).bind fun o => ?_
      dsimp only
      split
      · exact ih
      · exact (reports_modifyObject id _).bind fun _ => ih

theorem reports_setMaterial (id : ObjectId) {value : AssignedValue}
    (hvalue : value.Has (Expr.Placed P)) : Reports P (setMaterial id value) := by
  cases value with
  | expr e =>
    refine (reports_evaluateMaterial hvalue).bind fun material =>
      (reports_object id).bind fun o => ?_
    exact .ite (reports_paintChildren material _) (reports_modifyObject id _)
  | triple t => exact .fail rfl
  | relative anchor offset => exact .fail rfl

theorem reports_selectObject (target : String) (child : Option String) :
    Reports P (selectObject target child) := by
  refine (reports_objectNamed target).bind fun id => ?_
  cases child with
  | none => exact .pure id
  | some child =>
    refine (reports_object id).bind fun o => ?_
    dsimp only
    split
    · exact reports_objectNamed child
    · exact Reports.bind (.fail rfl) fun _ => reports_objectNamed child

theorem reports_setProperty (target : String) (child : Option String) (property : String)
    {value : AssignedValue} (hvalue : value.Has (Expr.Placed P)) :
    Reports P (setProperty target child property value) := by
  have hposition (id : ObjectId) : Reports P (setPosition id value) :=
    (reports_evaluatePosition hvalue).bind fun _ => reports_modifyObject id _
  have hrotation (id : ObjectId) : Reports P (setRotation id value) :=
    (reports_evaluateVector hvalue).bind fun _ => reports_modifyObject id _
  refine (reports_selectObject target child).bind fun id => ?_
  split
  · exact hposition id
  · exact hposition id
  · exact hrotation id
  · exact hrotation id
  · exact (reports_evaluateScale hvalue).bind fun _ => reports_modifyObject id _
  · exact reports_setMaterial id hvalue
  · exact .fail rfl

theorem reports_callRotate (target : String) {args : List Expr} (hargs : ∀ arg ∈ args, arg.Placed P)
    (excluded : Option String) : Reports P (callRotate target args excluded) := by
  refine (reports_objectNamed target).bind fun id => ?_
  cases args with
  | nil => exact .fail rfl
  | cons angle more =>
    have hangle : angle.Placed P := hargs angle (List.mem_cons_self ..)
    refine (reports_evaluateNumber hangle).bind fun degrees => ?_
    refine (reports_modifyObject id _).bind fun _ => ?_
    cases excluded with
    | none => exact .pure ()
    | some name => exact (reports_objectNamed name).bind fun other => reports_modifyObject other _

theorem reports_callMove (target : String) {args : List Expr} (hargs : ∀ arg ∈ args, arg.Placed P) :
    Reports P (callMove target args) :=
  (reports_objectNamed target).bind fun id =>
    (reports_evaluateAll args (Expr.allPlaced_iff.2 hargs)).bind fun _ =>
      (Reports.ofOption rfl _).bind fun _ => reports_modifyObject id _

theorem reports_callMethod (target method : String) {args : List Expr}
    (hargs : ∀ arg ∈ args, arg.Placed P) (excluded : Option String) :
    Reports P (callMethod target method args excluded) := by
  refine (reports_lookup? target).bind fun value => ?_
  split
  next id =>
    exact (reports_evaluateAll args (Expr.allPlaced_iff.2 hargs)).bind fun values =>
      (reports_callMember target id method values).bind fun _ => .pure ()
  next =>
    split
    · exact reports_callRotate target hargs excluded
    · exact reports_callMove target hargs
    · exact .pure ()

/-! ### Statements -/

theorem reports_adopt (parent : String) (names : List String) : Reports P (adopt parent names) := by
  induction names with
  | nil => exact .pure ()
  | cons name more ih =>
    refine (reports_lookup? name).bind fun value => ?_
    cases value.bind Value.object? with
    | none => exact (Reports.pure ()).bind fun _ => ih
    | some id => exact (reports_modifyObject id _).bind fun _ => ih

theorem reports_bindObject (name : String) (value : Value) : Reports P (bindObject name value) := by
  cases value with
  | object id =>
    refine (reports_object id).bind fun o => (reports_addObject _).bind fun bound => ?_
    refine Reports.bind (.of_ok fun m => ⟨(), _, rfl, rfl⟩) fun _ => ?_
    exact (reports_adopt name _).bind fun _ => .pure _
  | _ => exact .pure _

theorem reports_repeatBody {test : Run (Option α)} {body : α → Run Unit} {exceeded : Run Unit}
    (htest : Reports P test) (hbody : ∀ a, Reports P (body a)) (hexceeded : Reports P exceeded)
    (n : Nat) : Reports P (repeatBody test body exceeded n) := by
  induction n with
  | zero =>
    refine htest.bind fun found => ?_
    cases found with
    | none => exact .pure ()
    | some a => exact hexceeded
  | succ n ih =>
    refine htest.bind fun found => ?_
    cases found with
    | none => exact .pure ()
    | some a => exact (hbody a).bind fun _ => ih

/-- The limit of a loop is reported at the place of the loop. -/
theorem reports_reportLimit {span : Span} (hspan : P span) : Reports P (reportLimit span) :=
  reports_notify ⟨_, span, rfl, hspan⟩

theorem reports_readCounter (counter : String) : Reports P (readCounter counter) := by
  refine (reports_lookup counter).bind fun value => ?_
  cases value.number? with
  | some x => exact .pure x
  | none => exact .typeMismatch _ _

theorem reports_nextStep? {span : Span} (hspan : P span) (counter : String) {stop : Expr}
    {step : Option Expr} (hstop : stop.Placed P) (hstep : ∀ e ∈ step, e.Placed P) :
    Reports P (nextStep? span counter stop step) := by
  refine ((reports_readCounter counter).placing hspan).bind fun current => ?_
  refine ((reports_evaluateNumber hstop).placing hspan).bind fun last => ?_
  cases step with
  | some step =>
    exact ((reports_evaluateNumber (hstep step rfl)).placing hspan).bind fun _ => .pure _
  | none => exact (Reports.pure 1).bind fun _ => .pure _

theorem reports_conditionHolds? {span : Span} (hspan : P span) {condition : Expr}
    (hcondition : condition.Placed P) : Reports P (conditionHolds? span condition) :=
  ((reports_evaluate condition hcondition).placing hspan).bind fun _ => .pure _

mutual
/-- A statement fails and reports at places of its parts. -/
theorem reports_execute : ∀ s : Stmt, s.Placed P → Reports P (execute s)
  | .imports _, _ => .pure ()
  | .assign _ name confined value, ⟨hspan, hvalue⟩ =>
    ((reports_evaluate value hvalue).placing hspan).bind fun evaluated =>
      (reports_bindObject name evaluated).bind fun _ => reports_modifyScope _
  | .setProperty _ target child property _, ⟨hspan, hvalue⟩ =>
    (reports_setProperty target child property hvalue).placing hspan
  | .callMethod _ target method _ excluded, ⟨hspan, hargs⟩ =>
    (reports_callMethod target method hargs excluded).placing hspan
  | .print _ value, ⟨hspan, hvalue⟩ =>
    ((reports_evaluate value hvalue).placing hspan).bind fun evaluated =>
      (reports_display evaluated).bind fun _ => .of_ok fun _ => ⟨(), _, rfl, rfl⟩
  | .branch _ condition thenBlock none, ⟨hspan, hcondition, hthen, _⟩ =>
    ((reports_evaluate condition hcondition).placing hspan).bind fun _ =>
      .ite (reports_executeAll thenBlock hthen).inBlock (.pure ())
  | .branch _ condition thenBlock (some elseBlock), ⟨hspan, hcondition, hthen, helse⟩ =>
    ((reports_evaluate condition hcondition).placing hspan).bind fun _ =>
      .ite (reports_executeAll thenBlock hthen).inBlock (reports_executeAll elseBlock helse).inBlock
  | .whileLoop _ _ body, ⟨hspan, hcondition, hbody⟩ =>
    reports_repeatBody (reports_conditionHolds? hspan hcondition)
      (fun _ => (reports_executeAll body hbody).inBlock) (reports_reportLimit hspan) maxIterations
  | .forLoop _ counter _ _ _ body, ⟨hspan, hstart, hstop, hstep, hbody⟩ => by
    refine ((reports_evaluateNumber hstart).placing hspan).bind fun first => ?_
    refine (reports_modifyScope _).bind fun _ => ?_
    refine reports_repeatBody (reports_nextStep? hspan counter hstop hstep) (fun size => ?_)
      (reports_reportLimit hspan) maxIterations
    exact (reports_executeAll body hbody).inBlock.bind fun _ =>
      ((reports_readCounter counter).placing hspan).bind fun _ => reports_modifyScope _
theorem reports_executeAll :
    ∀ block : List Stmt, Stmt.AllPlaced P block → Reports P (executeAll block)
  | [], _ => .pure ()
  | first :: more, ⟨hfirst, hmore⟩ =>
    ((reports_execute first hfirst).placing hfirst.span).bind fun _ => reports_executeAll more hmore
end

end Run

/-! ### Programs -/

section
variable {P : Span → Prop} {m after : Machine} {n : Notice}

theorem Notice.IsReport.isOfRun (h : n.IsReport P) : n.isOfRun = true := by
  cases n with
  | error d =>
    obtain ⟨most, s, rfl, -⟩ := h
    rfl
  | warning => rfl
  | missingModule => cases h
  | forwarded => cases h

theorem Machine.ReportsTo.isOfRun (h : m.ReportsTo P after) (hn : n ∈ after.notices) :
    n ∈ m.notices ∨ n.isOfRun = true := by
  obtain ⟨entries, happended, hall⟩ := h
  rw [← Array.mem_toList_iff, happended] at hn
  rcases List.mem_append.1 hn with hn | hn
  · exact .inl (Array.mem_toList_iff.1 hn)
  · exact .inr (hall n hn).isOfRun

theorem Machine.isOfRun_of_runStatement {s : Stmt} (h : m.runStatement s = .ok after)
    (hn : n ∈ after.notices) : n ∈ m.notices ∨ n.isOfRun = true := by
  have hreports := Run.reports_execute s (s.placed_of_forall fun _ => trivial)
  rcases runStatement_cases h with hran | ⟨d, ended, hran, rfl⟩
  · exact (hreports.keeps.rel hran).isOfRun hn
  · rcases Array.mem_push.1 hn with hn | rfl
    · exact (hreports.keeps.rel hran).isOfRun hn
    · exact .inr (Cause.isOfRun_of_failsStatement (hreports.fault m ended d hran).cause)

theorem Machine.isOfRun_of_foldlM {statements : List Stmt}
    (h : statements.foldlM runStatement m = .ok after) (hn : n ∈ after.notices) :
    n ∈ m.notices ∨ n.isOfRun = true := by
  refine of_foldlM (P := fun k => n ∈ k.notices → n ∈ m.notices ∨ n.isOfRun = true)
    (fun s _ before next hrun hbefore hnext => ?_) h .inl hn
  rcases isOfRun_of_runStatement hrun hnext with hmem | hofRun
  · exact hbefore hmem
  · exact .inr hofRun

end

/-- A run reports warnings and the causes of runs, and nothing else. -/
theorem Program.isOfRun_of_run {p : Program} {modules : Table Value} {store : Store} {r : Result}
    (h : p.run modules store = .ok r) : ∀ n ∈ r.notices, n.isOfRun = true := by
  obtain ⟨m, hend, rfl⟩ := run_eq_ok_iff.1 h
  intro n hn
  rcases Machine.isOfRun_of_foldlM hend (Array.mem_toList_iff.1 hn) with hstart | hrun
  · exact absurd hstart (Array.not_mem_empty n)
  · exact hrun

end SceneScript
