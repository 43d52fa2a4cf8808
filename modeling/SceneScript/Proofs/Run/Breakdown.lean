import SceneScript.Proofs.Library.Outcome
import SceneScript.Proofs.Run.Failure
import SceneScript.Run.Result

namespace SceneScript

/-- A call of a library function, with the state of the generator it may draw from. -/
structure LibraryCall where
  function : Builtin
  args : List Value
  generator : Random.Generator

def LibraryCall.IsUndefined (c : LibraryCall) : Prop := c.function.IsUndefined c.args c.generator

def Store.libraryCall (s : Store) (f : Native) (args : List Value) : LibraryCall :=
  ⟨f.function, args, s.generators[f.library.index]?.getD (.ofSeed 0)⟩

theorem Store.call_eq_breakdown_iff (s : Store) (f : Native) (args : List Value) :
    s.call f args = .error .breakdown ↔ (s.libraryCall f args).IsUndefined := by
  unfold call
  exact Builtin.map_eq_breakdown_iff.trans (Builtin.call_eq_breakdown_iff _ _ _)

abbrev Calls := Machine → LibraryCall → Prop

namespace Calls

def none : Calls := fun _ _ => False

/-- The calls of a run and then, if it comes to a value, those of what follows. -/
def andThen {α : Type} (first : Calls) (x : Run α) (rest : α → Calls) : Calls := fun m c =>
  first m c ∨ ∃ a between, x m = (.ok a, between) ∧ rest a between c

def inBlock (inside : Calls) : Calls := fun m => inside { m with scope := m.scope.push }

end Calls

namespace Run

/-! ### Calls of expressions -/

def memberCalls (id : ModuleId) (name : String) (args : List Value) : Calls := fun m c =>
  ∃ f, (m.store.exports id).get? name = some (.native f) ∧ c = m.store.libraryCall f args

def nameCalls (callee : String) (args : List Value) : Calls := fun m c =>
  (args.head?.getD .nil).convert? callee m.store.display = none ∧
    ∃ f, m.scope.lookup? callee = some (.native f) ∧ c = m.store.libraryCall f args

def receiverCalls (receiver callee : String) (args : List Value) : Calls := fun m c =>
  ∃ id, m.scope.lookup? receiver = some (.module id) ∧ memberCalls id callee args m c

mutual
def calls : Expr → Calls
  | .binary _ _ left right => (calls left).andThen (evaluate left) fun _ => calls right
  | .call _ none callee args => (callsAll args).andThen (evaluateAll args) (nameCalls callee)
  | .call _ (some receiver) callee args =>
    (callsAll args).andThen (evaluateAll args) (receiverCalls receiver callee)
  | .material _ properties => propertiesCalls properties
  | .modifier _ _ properties => propertiesCalls properties
  | _ => .none
def callsAll : List Expr → Calls
  | [] => .none
  | first :: more => (calls first).andThen (evaluate first) fun _ => callsAll more
def propertyCalls : Property Expr → Calls
  | .single _ e => calls e
  | .list _ es => callsAll es
def propertiesCalls : List (Property Expr) → Calls
  | [] => .none
  | first :: more => (propertyCalls first).andThen (evaluateProperty first) fun _ =>
    propertiesCalls more
end

/-! ### Calls of statements -/

def tripleCalls (t : Triple) : Calls :=
  (calls t.x).andThen (evaluateNumber t.x) fun _ =>
    (calls t.y).andThen (evaluateNumber t.y) fun _ => calls t.z

def vectorCalls : AssignedValue → Calls
  | .triple t => tripleCalls t
  | .expr e => calls e
  | .relative _ _ => .none

def positionCalls : AssignedValue → Calls
  | .relative anchor (some t) => Calls.none.andThen (objectNamed anchor) fun _ => tripleCalls t
  | .relative _ none => .none
  | other => vectorCalls other

def materialCalls : AssignedValue → Calls
  | .expr e => calls e
  | _ => .none

/-- The calls for the value of a property. A property that is not known is not evaluated. -/
def valueCalls (property : String) (value : AssignedValue) : Calls :=
  match property with
  | "pos" => positionCalls value
  | "position" => positionCalls value
  | "rot" => vectorCalls value
  | "rotation" => vectorCalls value
  | "scale" => vectorCalls value
  | "material" => materialCalls value
  | _ => .none

def objectMethodCalls (target method : String) (args : List Expr) : Calls :=
  match method, args with
  | "rotate", angle :: _ => Calls.none.andThen (objectNamed target) fun _ => calls angle
  | "move", args => Calls.none.andThen (objectNamed target) fun _ => callsAll args
  | _, _ => .none

def methodCalls (target method : String) (args : List Expr) : Calls :=
  Calls.none.andThen (lookup? target) fun value =>
    match value with
    | some (.module id) => (callsAll args).andThen (evaluateAll args) (memberCalls id method)
    | _ => objectMethodCalls target method args

def repeatCalls {α : Type} (test : Run (Option α)) (ofTest : Calls) (body : α → Run Unit)
    (ofBody : Calls) : Nat → Calls
  | 0 => ofTest
  | n + 1 => ofTest.andThen test fun again =>
    match again with
    | some a => ofBody.andThen (body a) fun _ => repeatCalls test ofTest body ofBody n
    | none => .none

def stepCalls (span : Span) (counter : String) (stop : Expr) (step : Option Expr) : Calls :=
  Calls.none.andThen (placing span (readCounter counter)) fun _ =>
    (calls stop).andThen (evaluateNumber stop) fun _ => step.elim .none calls

def countedRound (span : Span) (counter : String) (body : List Stmt) (size : Float) : Run Unit := do
  inBlock (executeAll body)
  let current ← placing span (readCounter counter)
  modifyScope (·.assign counter (.number (current + size)))

mutual
def statementCalls : Stmt → Calls
  | .imports _ => .none
  | .assign _ _ _ value => calls value
  | .setProperty _ target child property value =>
    Calls.none.andThen (selectObject target child) fun _ => valueCalls property value
  | .callMethod _ target method args _ => methodCalls target method args
  | .print _ value => calls value
  | .branch _ condition thenBlock none =>
    (calls condition).andThen (evaluate condition) fun value =>
    if value.isTrue then (blockCalls thenBlock).inBlock else .none
  | .branch _ condition thenBlock (some elseBlock) =>
    (calls condition).andThen (evaluate condition) fun value =>
      if value.isTrue then (blockCalls thenBlock).inBlock else (blockCalls elseBlock).inBlock
  | .whileLoop span condition body =>
    repeatCalls (conditionHolds? span condition) (calls condition)
      (fun _ => inBlock (executeAll body)) (blockCalls body).inBlock maxIterations
  | .forLoop span counter start stop step body =>
    (calls start).andThen (evaluateNumber start) fun first =>
      Calls.none.andThen (modifyScope (·.assign counter (.number first))) fun _ =>
        repeatCalls (nextStep? span counter stop step) (stepCalls span counter stop step)
          (countedRound span counter body) (blockCalls body).inBlock maxIterations
def blockCalls : List Stmt → Calls
  | [] => .none
  | first :: more => (statementCalls first).andThen (execute first) fun _ => blockCalls more
end

/-! ### Runs that break down -/

def BreaksFor {α : Type} (x : Run α) (C : Calls) : Prop :=
  ∀ m, (x m).1 = .error .breakdown ↔ ∃ c, C m c ∧ c.IsUndefined

section Laws
variable {α β : Type} {x : Run α} {f : α → Run β} {C : Calls} {D : α → Calls}

theorem BreaksFor.none (h : ∀ m, (x m).1 ≠ .error .breakdown) : BreaksFor x .none :=
  fun m => iff_of_false (h m) fun ⟨_, hc, _⟩ => hc

theorem BreaksFor.of_succeeds (h : Succeeds x) : BreaksFor x .none := by
  refine .none fun m hbreaks => ?_
  obtain ⟨a, after, hm⟩ := h m
  rw [hm] at hbreaks
  cases hbreaks

theorem BreaksFor.pure (a : α) : BreaksFor (pure a : Run α) .none := .of_succeeds (.pure a)

theorem BreaksFor.fault (d : Diagnostic) : BreaksFor (throw (.fault d) : Run α) .none := .none nofun

theorem BreaksFor.fail (cause : Cause) : BreaksFor (fail cause : Run α) .none := .fault _

theorem BreaksFor.typeMismatch (expected : String) (got : Value) :
    BreaksFor (typeMismatch expected got : Run α) .none := .fault _

theorem BreaksFor.ofExcept (e : Except Cause α) : BreaksFor (ofExcept e) .none := by
  cases e with
  | error cause => exact .fail cause
  | ok a => exact .pure a

theorem BreaksFor.ofOption (cause : Cause) (o : Option α) : BreaksFor (ofOption cause o) .none := by
  cases o with
  | none => exact .fail cause
  | some a => exact .pure a

theorem BreaksFor.bind (hx : BreaksFor x C) (hf : ∀ a, BreaksFor (f a) (D a)) :
    BreaksFor (x >>= f) (C.andThen x D) := by
  intro m
  rcases hm : x m with ⟨stop | a, between⟩
  -- The first part stops, and the second makes no call.
  · rw [bind_apply_of_error f hm]
    have hfirst := hx m
    rw [hm] at hfirst
    constructor
    · intro hbreaks
      obtain ⟨c, hc, hundefined⟩ := hfirst.1 (congrArg Except.error (Except.error.inj hbreaks))
      exact ⟨c, .inl hc, hundefined⟩
    · rintro ⟨c, hc | ⟨a, between', hok, -⟩, hundefined⟩
      · exact congrArg Except.error (Except.error.inj (hfirst.2 ⟨c, hc, hundefined⟩))
      · rw [hm] at hok
        cases hok
  -- The first part has a value, so none of its calls is undefined.
  · rw [bind_apply_of_ok f hm, hf a between]
    have hfirst : ∀ c, C m c → ¬ c.IsUndefined := by
      intro c hc hundefined
      have hbreaks := (hx m).2 ⟨c, hc, hundefined⟩
      rw [hm] at hbreaks
      cases hbreaks
    constructor
    · rintro ⟨c, hc, hundefined⟩
      exact ⟨c, .inr ⟨a, between, hm, hc⟩, hundefined⟩
    · rintro ⟨c, hc | ⟨a', between', hok, hc⟩, hundefined⟩
      · exact absurd hundefined (hfirst c hc)
      · rw [hm] at hok
        cases hok
        exact ⟨c, hc, hundefined⟩

/-- What follows and breaks down for nothing adds nothing. -/
theorem BreaksFor.bind_none (hx : BreaksFor x C) (hf : ∀ a, BreaksFor (f a) .none) :
    BreaksFor (x >>= f) C := by
  intro m
  rw [hx.bind hf m]
  constructor
  · rintro ⟨c, hc | ⟨a, between, -, hc⟩, hundefined⟩
    · exact ⟨c, hc, hundefined⟩
    · cases hc
  · rintro ⟨c, hc, hundefined⟩
    exact ⟨c, .inl hc, hundefined⟩

theorem BreaksFor.map (g : α → β) (hx : BreaksFor x C) : BreaksFor (g <$> x) C := by
  rw [map_eq_pure_bind]
  exact hx.bind_none fun a => .pure (g a)

theorem BreaksFor.placing (span : Span) (hx : BreaksFor x C) : BreaksFor (placing span x) C := by
  intro m
  rw [← hx m, placing_apply]
  rcases (x m).1 with (d | _) | a
  · constructor <;> intro h <;> cases h
  · constructor <;> intro <;> rfl
  · constructor <;> intro h <;> cases h

theorem placing_eq_ok_iff {span : Span} {m after : Machine} {a : α} :
    Run.placing span x m = (.ok a, after) ↔ x m = (.ok a, after) := by
  refine ⟨placing_eq_ok, fun h => ?_⟩
  rw [placing_apply, h]
  rfl

theorem andThen_placing (span : Span) : C.andThen (Run.placing span x) D = C.andThen x D := by
  funext m c
  simp only [Calls.andThen, placing_eq_ok_iff]

/-- As `bind`, where the first part is placed in addition. -/
theorem BreaksFor.bind_placing (span : Span) (hx : BreaksFor x C)
    (hf : ∀ a, BreaksFor (f a) (D a)) : BreaksFor (Run.placing span x >>= f) (C.andThen x D) := by
  rw [← andThen_placing span]
  exact (hx.placing span).bind hf

theorem BreaksFor.inBlock (hx : BreaksFor x C) : BreaksFor (inBlock x) C.inBlock :=
  fun m => hx { m with scope := m.scope.push }

/-- What is read without a change can be used to tell what the rest breaks down for. -/
theorem BreaksFor.of_read {g : Machine → α} (hx : ∀ m, x m = (.ok (g m), m))
    (hf : ∀ m, (f (g m) m).1 = .error .breakdown ↔ ∃ c, C m c ∧ c.IsUndefined) :
    BreaksFor (x >>= f) C := by
  intro m
  rw [bind_apply_of_ok f (hx m)]
  exact hf m

end Laws

/-! ### References and calls -/

theorem breaksFor_followMembers (span : Span) (owner : String) (value : Value)
    (members : List String) : BreaksFor (followMembers span owner value members) .none := by
  induction members generalizing owner value with
  | nil => exact .pure value
  | cons member more ih =>
    exact (BreaksFor.of_succeeds fun m => ⟨_, m, rfl⟩).bind_none fun _ =>
      ((BreaksFor.ofOption _ _).placing span).bind_none fun found => ih _ found

/-- A call of a library function breaks down exactly if it is undefined. -/
theorem callNative_eq_breakdown_iff (shownAs : String) (f : Native) (args : List Value)
    (m : Machine) : (callNative shownAs f args m).1 = .error .breakdown ↔
      (m.store.libraryCall f args).IsUndefined := by
  rw [← Store.call_eq_breakdown_iff, callNative, bind_apply_of_ok _ (getStore_apply m)]
  cases m.store.call f args with
  | ok result => exact iff_of_false nofun nofun
  | error failure =>
    cases failure with
    | refused reason => exact iff_of_false nofun nofun
    | breakdown => exact iff_of_true rfl rfl

theorem breaksFor_callMember (owner : String) (id : ModuleId) (name : String) (args : List Value) :
    BreaksFor (callMember owner id name args) (memberCalls id name args) := by
  refine .of_read getStore_apply fun m => ?_
  unfold memberCalls
  rcases (m.store.exports id).get? name with _ | value
  · exact iff_of_false nofun fun ⟨_, ⟨_, hnone, _⟩, _⟩ => nomatch hnone
  · cases value with
    | native f =>
      refine (callNative_eq_breakdown_iff _ f args m).trans ⟨fun h => ⟨_, ⟨f, rfl, rfl⟩, h⟩, ?_⟩
      rintro ⟨_, ⟨f', hf, rfl⟩, h⟩
      cases hf
      exact h
    | _ => exact iff_of_false nofun fun ⟨_, ⟨_, hother, _⟩, _⟩ => nomatch hother

theorem breaksFor_callName (callee : String) (args : List Value) :
    BreaksFor (callName callee args) (nameCalls callee args) := by
  refine .of_read getStore_apply fun m => ?_
  unfold nameCalls
  cases (args.head?.getD .nil).convert? callee m.store.display with
  | some converted =>
    exact ((BreaksFor.ofExcept converted) m).trans
      (iff_of_false (fun ⟨_, hc, _⟩ => hc) fun ⟨_, ⟨hnone, _⟩, _⟩ => nomatch hnone)
  | none =>
    dsimp only
    rw [lookup, bind_assoc, bind_apply_of_ok _ (lookup?_apply callee m)]
    rcases m.scope.lookup? callee with _ | value
    · exact iff_of_false nofun fun ⟨_, ⟨_, _, hnone, _⟩, _⟩ => nomatch hnone
    · cases value with
      | native f =>
        refine (callNative_eq_breakdown_iff _ f args m).trans
          ⟨fun h => ⟨_, ⟨rfl, f, rfl, rfl⟩, h⟩, ?_⟩
        rintro ⟨_, ⟨-, f', hf, rfl⟩, h⟩
        cases hf
        exact h
      | _ => exact iff_of_false nofun fun ⟨_, ⟨_, _, hother, _⟩, _⟩ => nomatch hother

theorem breaksFor_callReceiver (receiver callee : String) (args : List Value) :
    BreaksFor (callReceiver receiver callee args) (receiverCalls receiver callee args) := by
  intro m
  unfold callReceiver receiverCalls
  rw [lookup, bind_assoc, bind_apply_of_ok _ (lookup?_apply receiver m)]
  rcases m.scope.lookup? receiver with _ | value
  · exact iff_of_false nofun fun ⟨_, ⟨_, hnone, _⟩, _⟩ => nomatch hnone
  · cases value with
    | module id =>
      refine (breaksFor_callMember receiver id callee args m).trans
        ⟨fun ⟨c, hc, h⟩ => ⟨c, ⟨id, rfl, hc⟩, h⟩, ?_⟩
      rintro ⟨c, ⟨id', hid, hc⟩, h⟩
      cases hid
      exact ⟨c, hc, h⟩
    | _ => exact iff_of_false nofun fun ⟨_, ⟨_, hother, _⟩, _⟩ => nomatch hother

/-! ### Expressions -/

theorem breaksFor_faceMaterial (span : Span) (reference : Option MaterialRef) :
    BreaksFor (faceMaterial span reference) .none := by
  have hread : ∀ reference, BreaksFor (referredMaterial? reference) .none := by
    intro reference
    cases reference with
    | named name => exact .of_succeeds fun m => ⟨_, m, rfl⟩
    | member library item =>
      refine (BreaksFor.of_succeeds (.lookup? library)).bind_none fun value => ?_
      split
      · exact .of_succeeds fun m => ⟨_, m, rfl⟩
      · exact .pure _
  cases reference with
  | none => exact .pure _
  | some reference =>
    refine (hread reference).bind_none fun found => ?_
    cases found with
    | none => exact .of_succeeds fun m => ⟨_, _, rfl⟩
    | some material => exact .pure _

theorem breaksFor_buildFaces (span : Span) (count : Nat) (faces : List FaceLiteral) :
    BreaksFor (buildFaces span count faces) .none := by
  induction faces with
  | nil => exact .pure _
  | cons face more ih =>
    have hface : BreaksFor (buildFace span count face) .none := by
      unfold buildFace
      split
      · exact .fault _
      · exact (breaksFor_faceMaterial span face.material).bind_none fun _ => .pure _
    exact hface.bind_none fun _ => ih.bind_none fun _ => .pure _

theorem breaksFor_addObject (o : Object) : BreaksFor (addObject o) .none :=
  .of_succeeds fun _ => ⟨_, _, rfl⟩

theorem breaksFor_modified (span : Span) (kind : String) (props : Properties) :
    BreaksFor (modified span kind props) .none := by
  unfold modified
  split
  · exact .fault _
  · exact (BreaksFor.of_succeeds (.object _)).bind_none fun _ =>
      ((BreaksFor.ofExcept _).placing span).bind_none fun _ =>
        ((BreaksFor.ofExcept _).placing span).bind_none fun _ => (breaksFor_addObject _).map _
  · exact (BreaksFor.typeMismatch _ _).placing span

mutual
theorem breaksFor_evaluate : ∀ e : Expr, BreaksFor (evaluate e) (calls e)
  | .number _ x => .pure _
  | .string _ text => .pure _
  | .reference span name members => by
    have hlookup : BreaksFor (lookup name) .none :=
      (BreaksFor.of_succeeds (.lookup? name)).bind_none fun _ => .ofOption _ _
    exact (hlookup.placing span).bind_none fun value =>
      breaksFor_followMembers span name value members
  | .binary span op left right => by
    refine (breaksFor_evaluate left).bind fun _ => (breaksFor_evaluate right).bind_none fun _ => ?_
    exact (BreaksFor.placing span
      ((BreaksFor.of_succeeds fun m => ⟨_, m, rfl⟩).bind_none fun _ => .ofExcept _))
  | .call span none callee args =>
    ((breaksFor_evaluateAll args).bind (breaksFor_callName callee)).placing span
  | .call span (some receiver) callee args =>
    ((breaksFor_evaluateAll args).bind (breaksFor_callReceiver receiver callee)).placing span
  | .cube span vertices =>
    ((BreaksFor.ofExcept _).placing span).bind_none fun _ => (breaksFor_addObject _).map _
  | .mesh span vertices faces =>
    (breaksFor_buildFaces span _ faces).bind_none fun _ => (breaksFor_addObject _).map _
  | .material span properties =>
    (breaksFor_evaluateProperties properties).bind_none fun _ =>
      ((BreaksFor.ofExcept _).placing span).map _
  | .modifier span kind properties =>
    (breaksFor_evaluateProperties properties).bind_none (breaksFor_modified span kind)
  | .group _ children => (breaksFor_addObject _).map _
theorem breaksFor_evaluateAll : ∀ es : List Expr, BreaksFor (evaluateAll es) (callsAll es)
  | [] => .pure _
  | first :: more =>
    (breaksFor_evaluate first).bind fun _ => (breaksFor_evaluateAll more).bind_none fun _ => .pure _
theorem breaksFor_evaluateProperty :
    ∀ p : Property Expr, BreaksFor (evaluateProperty p) (propertyCalls p)
  | .single _ e => (breaksFor_evaluate e).bind_none fun _ => .pure _
  | .list _ es => (breaksFor_evaluateAll es).bind_none fun _ => .pure _
theorem breaksFor_evaluateProperties :
    ∀ ps : List (Property Expr), BreaksFor (evaluateProperties ps) (propertiesCalls ps)
  | [] => .pure _
  | first :: more => (breaksFor_evaluateProperty first).bind fun _ =>
    (breaksFor_evaluateProperties more).bind_none fun _ => .pure _
end

theorem breaksFor_evaluateNumber (e : Expr) : BreaksFor (evaluateNumber e) (calls e) := by
  refine (breaksFor_evaluate e).bind_none fun value => ?_
  cases value.number? with
  | some x => exact .pure x
  | none => exact (BreaksFor.typeMismatch _ _).placing _

/-! ### Properties and methods -/

theorem breaksFor_objectNamed (name : String) : BreaksFor (objectNamed name) .none :=
  (BreaksFor.of_succeeds (.lookup? name)).bind_none fun _ => .ofOption _ _

theorem breaksFor_modifyObject (id : ObjectId) (g : Object → Object) :
    BreaksFor (modifyObject id g) .none := .of_succeeds (.modifyObject id g)

theorem breaksFor_evaluateTriple (t : Triple) : BreaksFor (evaluateTriple t) (tripleCalls t) :=
  (breaksFor_evaluateNumber t.x).bind fun _ => (breaksFor_evaluateNumber t.y).bind fun _ =>
    (breaksFor_evaluateNumber t.z).bind_none fun _ => .pure _

theorem breaksFor_vectorOf (expected : String) (value : Value) :
    BreaksFor (vectorOf expected value) .none := by
  unfold vectorOf
  split
  · exact .pure _
  · exact .typeMismatch _ _

theorem breaksFor_evaluateVector (value : AssignedValue) :
    BreaksFor (evaluateVector value) (vectorCalls value) := by
  cases value with
  | expr e => exact (breaksFor_evaluate e).bind_none fun _ => breaksFor_vectorOf _ _
  | triple t => exact breaksFor_evaluateTriple t
  | relative anchor offset => exact .fail _

theorem breaksFor_evaluatePosition (value : AssignedValue) :
    BreaksFor (evaluatePosition value) (positionCalls value) := by
  cases value with
  | expr e => exact breaksFor_evaluateVector (.expr e)
  | triple t => exact breaksFor_evaluateVector (.triple t)
  | relative anchor offset =>
    cases offset with
    | none => exact (breaksFor_objectNamed anchor).bind_none fun id =>
        (BreaksFor.of_succeeds (.object id)).bind_none fun _ => .pure _
    | some t =>
      refine (breaksFor_objectNamed anchor).bind fun id => ?_
      exact .of_read (object_apply id) fun m =>
        ((breaksFor_evaluateTriple t).bind_none fun _ => .pure _) m

theorem breaksFor_evaluateScale (value : AssignedValue) :
    BreaksFor (evaluateScale value) (vectorCalls value) := by
  cases value with
  | expr e =>
    refine (breaksFor_evaluate e).bind_none fun value => ?_
    cases value with
    | number x => exact .pure _
    | _ => exact breaksFor_vectorOf _ _
  | triple t => exact breaksFor_evaluateVector (.triple t)
  | relative anchor offset => exact breaksFor_evaluateVector (.relative anchor offset)

/-- An unknown name is a warning instead of a fault; what breaks down stays broken. -/
theorem breaksFor_evaluateKnown? (e : Expr) : BreaksFor (evaluateKnown? e) (calls e) := by
  intro m
  rw [← breaksFor_evaluate e m]
  unfold evaluateKnown?
  rcases evaluate e m with ⟨stop | value, after⟩
  · cases stop with
    | breakdown => exact iff_of_true rfl rfl
    | fault d =>
      dsimp only
      split <;> exact iff_of_false nofun nofun
  · exact iff_of_false nofun nofun

theorem breaksFor_evaluateMaterial (e : Expr) : BreaksFor (evaluateMaterial e) (calls e) := by
  refine (breaksFor_evaluateKnown? e).bind_none fun known => ?_
  have hwarned : ∀ (value : Value) (found : Option Material), BreaksFor (do
      if found.isNone then warn e.span (.notAMaterial (← display value))
      return found) .none := by
    intro value found
    cases found with
    | some m => exact .pure _
    | none => exact .of_succeeds fun _ => ⟨_, _, rfl⟩
  rcases known with _ | value
  · exact .pure none
  · cases value with
    | nil => exact .pure none
    | material m => exact .pure _
    | string name =>
      exact (BreaksFor.of_succeeds (.lookup? name)).bind_none fun _ =>
        (BreaksFor.pure _).bind_none (hwarned _)
    | _ => exact (BreaksFor.pure none).bind_none (hwarned _)

theorem breaksFor_selectObject (target : String) (child : Option String) :
    BreaksFor (selectObject target child) .none := by
  refine (breaksFor_objectNamed target).bind_none fun id => ?_
  cases child with
  | none => exact .pure id
  | some child =>
    refine (BreaksFor.of_succeeds (.object id)).bind_none fun o => ?_
    dsimp only
    split
    · exact breaksFor_objectNamed child
    · exact (BreaksFor.fail _).bind_none fun _ => breaksFor_objectNamed child

theorem breaksFor_setProperty (target : String) (child : Option String) (property : String)
    (value : AssignedValue) : BreaksFor (setProperty target child property value)
      (Calls.none.andThen (selectObject target child) fun _ => valueCalls property value) := by
  refine (breaksFor_selectObject target child).bind fun id => ?_
  split
  · exact (breaksFor_evaluatePosition value).bind_none fun _ => breaksFor_modifyObject id _
  · exact (breaksFor_evaluatePosition value).bind_none fun _ => breaksFor_modifyObject id _
  · exact (breaksFor_evaluateVector value).bind_none fun _ => breaksFor_modifyObject id _
  · exact (breaksFor_evaluateVector value).bind_none fun _ => breaksFor_modifyObject id _
  · exact (breaksFor_evaluateScale value).bind_none fun _ => breaksFor_modifyObject id _
  · cases value with
    | expr e => exact (breaksFor_evaluateMaterial e).bind_none fun _ =>
        .of_succeeds (succeeds_paint id _)
    | triple t => exact .fail _
    | relative anchor offset => exact .fail _
  · unfold valueCalls
    split <;> first | contradiction | exact .fail _

theorem breaksFor_callRotate (target : String) (args : List Expr) (excluded : Option String) :
    BreaksFor (callRotate target args excluded) (objectMethodCalls target "rotate" args) := by
  have hturn : ∀ id angle, BreaksFor (turnBy id angle) .none := fun id angle =>
    breaksFor_modifyObject id _
  cases args with
  | nil => exact (breaksFor_objectNamed target).bind_none fun _ => .fail _
  | cons angle more =>
    refine (breaksFor_objectNamed target).bind fun id => ?_
    refine (breaksFor_evaluateNumber angle).bind_none fun degrees =>
      (hturn id _).bind_none fun _ => ?_
    cases excluded with
    | none => exact .pure _
    | some name => exact (breaksFor_objectNamed name).bind_none fun other => hturn other _

theorem breaksFor_callMove (target : String) (args : List Expr) :
    BreaksFor (callMove target args) (objectMethodCalls target "move" args) :=
  (breaksFor_objectNamed target).bind fun id => (breaksFor_evaluateAll args).bind_none fun _ =>
    (BreaksFor.ofOption _ _).bind_none fun _ => breaksFor_modifyObject id _

theorem objectMethodCalls_of_ne (target : String) {method : String} (args : List Expr)
    (hrotate : method ≠ "rotate") (hmove : method ≠ "move") :
    objectMethodCalls target method args = .none := by
  unfold objectMethodCalls
  split
  · exact absurd rfl hrotate
  · exact absurd rfl hmove
  · rfl

theorem breaksFor_callMethod (target method : String) (args : List Expr)
    (excluded : Option String) :
    BreaksFor (callMethod target method args excluded) (methodCalls target method args) := by
  refine (BreaksFor.of_succeeds (.lookup? target)).bind fun value => ?_
  rcases value with _ | (_ | _ | _ | _ | _ | _ | _ | _ | id | _)
  case some.module =>
    exact (breaksFor_evaluateAll args).bind fun values =>
      (breaksFor_callMember target id method values).bind_none fun _ => .pure _
  -- Without a module the method is one of an object, whatever the name is bound to.
  all_goals
    dsimp only
    split
    next => exact breaksFor_callRotate target args excluded
    next => exact breaksFor_callMove target args
    next hrotate hmove =>
      rw [objectMethodCalls_of_ne target args hrotate hmove]
      exact .pure ()

/-! ### Loops -/

theorem breaksFor_repeatBody {α : Type} {test : Run (Option α)} {ofTest ofBody : Calls}
    {body : α → Run Unit} {exceeded : Run Unit} (htest : BreaksFor test ofTest)
    (hbody : ∀ a, BreaksFor (body a) ofBody) (hexceeded : BreaksFor exceeded .none) (n : Nat) :
    BreaksFor (repeatBody test body exceeded n) (repeatCalls test ofTest body ofBody n) := by
  induction n with
  | zero =>
    refine htest.bind_none fun again => ?_
    cases again with
    | some a => exact hexceeded
    | none => exact .pure _
  | succ n ih =>
    refine htest.bind fun again => ?_
    cases again with
    | some a => exact (hbody a).bind fun _ => ih
    | none => exact .pure _

theorem breaksFor_readCounter (counter : String) : BreaksFor (readCounter counter) .none := by
  have hlookup : BreaksFor (lookup counter) .none :=
    (BreaksFor.of_succeeds (.lookup? counter)).bind_none fun _ => .ofOption _ _
  refine hlookup.bind_none fun value => ?_
  cases value.number? with
  | some x => exact .pure x
  | none => exact .typeMismatch _ _

theorem breaksFor_nextStep? (span : Span) (counter : String) (stop : Expr) (step : Option Expr) :
    BreaksFor (nextStep? span counter stop step) (stepCalls span counter stop step) := by
  refine ((breaksFor_readCounter counter).placing span).bind fun current => ?_
  refine (breaksFor_evaluateNumber stop).bind_placing span fun last => ?_
  cases step with
  | some step => exact ((breaksFor_evaluateNumber step).placing span).bind_none fun _ => .pure _
  | none => exact (BreaksFor.pure 1).bind_none fun _ => .pure _

theorem breaksFor_modifyScope (f : Scope → Scope) : BreaksFor (modifyScope f) .none :=
  .of_succeeds fun _ => ⟨_, _, rfl⟩

/-! ### Statements -/

mutual
theorem breaksFor_execute : ∀ s : Stmt, BreaksFor (execute s) (statementCalls s)
  | .imports _ => .pure _
  | .assign span name confined value =>
    ((breaksFor_evaluate value).placing span).bind_none fun evaluated =>
      (BreaksFor.of_succeeds (succeeds_bindObject name evaluated)).bind_none fun _ =>
        breaksFor_modifyScope _
  | .setProperty span target child property value =>
    (breaksFor_setProperty target child property value).placing span
  | .callMethod span target method args excluded =>
    (breaksFor_callMethod target method args excluded).placing span
  | .print span value =>
    ((breaksFor_evaluate value).placing span).bind_none fun _ => .of_succeeds fun _ => ⟨_, _, rfl⟩
  | .branch span condition thenBlock none => by
    refine (breaksFor_evaluate condition).bind_placing span fun value => ?_
    dsimp only
    split
    · exact (breaksFor_executeAll thenBlock).inBlock
    · exact .pure _
  | .branch span condition thenBlock (some elseBlock) => by
    refine (breaksFor_evaluate condition).bind_placing span fun value => ?_
    dsimp only
    split
    · exact (breaksFor_executeAll thenBlock).inBlock
    · exact (breaksFor_executeAll elseBlock).inBlock
  | .whileLoop span condition body =>
    breaksFor_repeatBody
      (((breaksFor_evaluate condition).placing span).bind_none fun _ => .pure _)
      (fun _ => (breaksFor_executeAll body).inBlock) (.of_succeeds fun _ => ⟨_, _, rfl⟩) _
  | .forLoop span counter start stop step body => by
    refine (breaksFor_evaluateNumber start).bind_placing span fun first => ?_
    refine (breaksFor_modifyScope _).bind fun _ => ?_
    refine breaksFor_repeatBody (breaksFor_nextStep? span counter stop step) (fun size => ?_)
      (.of_succeeds fun _ => ⟨_, _, rfl⟩) _
    exact (breaksFor_executeAll body).inBlock.bind_none fun _ =>
      ((breaksFor_readCounter counter).placing span).bind_none fun _ => breaksFor_modifyScope _
theorem breaksFor_executeAll : ∀ block : List Stmt, BreaksFor (executeAll block) (blockCalls block)
  | [] => .pure _
  | first :: more =>
    (breaksFor_execute first).bind_placing first.span fun _ => breaksFor_executeAll more
end

end Run

/-! ### Programs -/

theorem Machine.runStatement_eq_error_iff {m : Machine} {s : Stmt} {stop : Stop} :
    m.runStatement s = .error stop ↔
      stop = .breakdown ∧ ∃ c, Run.statementCalls s m c ∧ c.IsUndefined := by
  rw [← Run.breaksFor_execute s m, runStatement]
  rcases Run.execute s m with ⟨(d | _) | done, after⟩
  · exact iff_of_false nofun fun h => nomatch h.2
  · constructor
    · rintro ⟨⟩
      exact ⟨rfl, rfl⟩
    · rintro ⟨rfl, -⟩
      rfl
  · exact iff_of_false nofun fun h => nomatch h.2

/-- The runs of statements stop at the first one that stops. -/
theorem Machine.foldlM_runStatement_eq_error_iff {statements : List Stmt} {m : Machine}
    {stop : Stop} : statements.foldlM runStatement m = .error stop ↔
      ∃ before s after between, statements = before ++ s :: after ∧
        before.foldlM runStatement m = .ok between ∧ between.runStatement s = .error stop := by
  -- Either the first statement stops, with nothing before it, or it comes to a machine and is one
  -- of those before the one that stops.
  induction statements generalizing m with
  | nil => exact iff_of_false nofun fun ⟨_, _, _, _, hnil, _⟩ => by simp at hnil
  | cons first more ih =>
    rw [List.foldlM_cons]
    cases hfirst : m.runStatement first with
    | error stop' =>
      constructor
      · intro h
        cases h
        exact ⟨[], first, more, m, rfl, rfl, hfirst⟩
      · rintro ⟨before, s, after, between, heq, hbefore, hs⟩
        cases before with
        | nil =>
          cases heq
          cases hbefore
          exact hfirst.symm.trans hs
        | cons other rest =>
          cases heq
          rw [List.foldlM_cons, hfirst] at hbefore
          cases hbefore
    | ok next =>
      refine ih.trans ⟨?_, ?_⟩
      · rintro ⟨before, s, after, between, rfl, hbefore, hs⟩
        refine ⟨first :: before, s, after, between, rfl, ?_, hs⟩
        rw [List.foldlM_cons, hfirst]
        exact hbefore
      · rintro ⟨before, s, after, between, heq, hbefore, hs⟩
        cases before with
        | nil =>
          cases heq
          cases hbefore
          rw [hfirst] at hs
          cases hs
        | cons other rest =>
          cases heq
          rw [List.foldlM_cons, hfirst] at hbefore
          exact ⟨rest, s, after, between, rfl, hbefore, hs⟩

namespace Program
variable {p : Program} {modules : Table Value} {store : Store}

def Makes (p : Program) (modules : Table Value) (store : Store) (c : LibraryCall) : Prop :=
  ∃ before s after m, p.statements = before ++ s :: after ∧
    before.foldlM Machine.runStatement (.start modules store) = .ok m ∧ Run.statementCalls s m c

/-- A run has no result exactly if it makes a call that is undefined. -/
theorem run_eq_error_iff {stop : Stop} : p.run modules store = .error stop ↔
    stop = .breakdown ∧ ∃ c, p.Makes modules store c ∧ c.IsUndefined := by
  have hrun : p.run modules store = .error stop ↔
      p.statements.foldlM Machine.runStatement (.start modules store) = .error stop := by
    unfold run
    cases p.statements.foldlM Machine.runStatement (.start modules store) with
    | ok m => exact iff_of_false nofun nofun
    | error other => exact ⟨fun h => by cases h; rfl, fun h => by cases h; rfl⟩
  rw [hrun, Machine.foldlM_runStatement_eq_error_iff]
  simp only [Machine.runStatement_eq_error_iff]
  constructor
  · rintro ⟨before, s, after, m, heq, hbefore, rfl, c, hc, hundefined⟩
    exact ⟨rfl, c, ⟨before, s, after, m, heq, hbefore, hc⟩, hundefined⟩
  · rintro ⟨rfl, c, ⟨before, s, after, m, heq, hbefore, hc⟩, hundefined⟩
    exact ⟨before, s, after, m, heq, hbefore, rfl, c, hc, hundefined⟩

end Program
end SceneScript
