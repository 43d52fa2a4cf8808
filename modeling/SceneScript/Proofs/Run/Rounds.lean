import SceneScript.Proofs.Run.Breakdown
import SceneScript.Proofs.Run.Path

namespace SceneScript

def Machine.entered (m : Machine) : Machine := { m with scope := m.scope.push }

def Machine.counted (m : Machine) (counter : String) (x : Float) : Machine :=
  { m with scope := m.scope.assign counter (.number x) }

namespace Machine

def SameScope (m after : Machine) : Prop := after.scope = m.scope

instance : IsPreorder Machine SameScope where
  refl _ := rfl
  trans _ _ _ h h' := h'.trans h

end Machine

namespace Run
variable {α β : Type}

theorem Keeps.imp {R S : Machine → Machine → Prop} {x : Run α} (h : Keeps R x)
    (hRS : ∀ {m after}, R m after → S m after) : Keeps S x := fun m => hRS (h m)

theorem Keeps.sameScope {x : Run α} (h : Quiet x) : Keeps Machine.SameScope x :=
  h.imp fun hgrows => hgrows.scope_eq

theorem sameScope_modifyObject (id : ObjectId) (f : Object → Object) :
    Keeps Machine.SameScope (modifyObject id f) := fun _ => rfl

theorem sameScope_paintChildren (material : Option Material) (names : List String) :
    Keeps Machine.SameScope (paintChildren material names) := by
  induction names with
  | nil => exact .pure ()
  | cons name more ih =>
    refine Keeps.get.bind fun m => ?_
    cases m.scene.get? name with
    | none => exact ih
    | some id =>
      refine (Keeps.object id).bind fun o => ?_
      dsimp only
      split
      · exact ih
      · exact (sameScope_modifyObject id _).bind fun _ => ih

theorem sameScope_paint (id : ObjectId) (material : Option Material) :
    Keeps Machine.SameScope (paint id material) := by
  refine (Keeps.object id).bind fun o => ?_
  split
  · exact sameScope_paintChildren material _
  · exact sameScope_modifyObject id _

theorem sameScope_setProperty (target : String) (child : Option String) (property : String)
    (value : AssignedValue) :
    Keeps Machine.SameScope (setProperty target child property value) := by
  refine (quiet_selectObject target child).sameScope.bind fun id => ?_
  split
  · exact (quiet_evaluatePosition value).sameScope.bind fun _ => sameScope_modifyObject id _
  · exact (quiet_evaluatePosition value).sameScope.bind fun _ => sameScope_modifyObject id _
  · exact (quiet_evaluateVector value).sameScope.bind fun _ => sameScope_modifyObject id _
  · exact (quiet_evaluateVector value).sameScope.bind fun _ => sameScope_modifyObject id _
  · exact (quiet_evaluateScale value).sameScope.bind fun _ => sameScope_modifyObject id _
  · cases value with
    | expr e => exact (quiet_evaluateMaterial e).sameScope.bind fun _ => sameScope_paint id _
    | _ => exact .fail _
  · exact .fail _

theorem sameScope_callRotate (target : String) (args : List Expr) (excluded : Option String) :
    Keeps Machine.SameScope (callRotate target args excluded) := by
  refine (Keeps.objectNamed target).bind fun id => ?_
  cases args with
  | nil => exact .fail _
  | cons angle more =>
    refine (quiet_evaluateNumber angle).sameScope.bind fun degrees => ?_
    refine (sameScope_modifyObject id _).bind fun _ => ?_
    cases excluded with
    | none => exact .pure ()
    | some name => exact (Keeps.objectNamed name).bind fun other => sameScope_modifyObject other _

theorem sameScope_callMethod (target method : String) (args : List Expr)
    (excluded : Option String) :
    Keeps Machine.SameScope (callMethod target method args excluded) := by
  refine (Keeps.lookup? target).bind fun value => ?_
  split
  next id =>
    exact (quiet_evaluateAll args).sameScope.bind fun values =>
      (quiet_callMember target id method values).sameScope.bind fun _ => .pure ()
  next =>
    split
    · exact sameScope_callRotate target args excluded
    · refine (Keeps.objectNamed target).bind fun id => ?_
      exact (quiet_evaluateAll args).sameScope.bind fun _ =>
        (Keeps.ofOption _ _).bind fun _ => sameScope_modifyObject id _
    · exact .pure ()

theorem inBlock_apply (x : Run α) (m : Machine) :
    inBlock x m = ((x m.entered).1,
      { (x m.entered).2 with scope := (x m.entered).2.scope.pop }) := rfl

theorem sameScope_reportLimit (span : Span) : Keeps Machine.SameScope (reportLimit span) :=
  fun _ => rfl

theorem sameScope_bindObject (name : String) (value : Value) :
    Keeps Machine.SameScope (bindObject name value) := by
  intro m
  cases hvalue : value.object? with
  | none =>
    rw [bindObject_of_object?_eq_none name hvalue m]
    exact refl m
  | some id =>
    obtain rfl : value = .object id := Value.eq_object_of_object? hvalue
    rw [bindObject_object name id m]
    rfl

/-- So many complete rounds of a loop lead from the first machine to the second. -/
inductive RoundsTo (test : Run (Option α)) (body : α → Run Unit) (m : Machine) :
    Nat → Machine → Prop
  | start : RoundsTo test body m 0 m
  | more {k : Nat} {between tested after : Machine} {a : α} : RoundsTo test body m k between →
      test between = (.ok (some a), tested) → body a tested = (.ok (), after) →
      RoundsTo test body m (k + 1) after

theorem execute_whileLoop (span : Span) (condition : Expr) (body : List Stmt) :
    execute (.whileLoop span condition body) =
      repeatBody (conditionHolds? span condition) (fun _ => inBlock (executeAll body))
        (reportLimit span) maxIterations := by
  rw [execute]

theorem execute_forLoop (span : Span) (counter : String) (start stop : Expr) (step : Option Expr)
    (body : List Stmt) :
    execute (.forLoop span counter start stop step body) = (do
      let first ← placing span (evaluateNumber start)
      modifyScope (·.assign counter (.number first))
      repeatBody (nextStep? span counter stop step) (countedRound span counter body)
        (reportLimit span) maxIterations) := by
  rw [execute]
  rfl

section Laws
variable {R : Machine → Machine → Prop} [IsPreorder Machine R]
  {test : Run (Option α)} {body : α → Run Unit} {exceeded : Run Unit} {m n : Machine} {k : Nat}

theorem RoundsTo.rel (htest : Keeps R test) (hbody : ∀ a, Keeps R (body a))
    (h : RoundsTo test body m k n) : R m n := by
  induction h with
  | start => exact refl m
  | more _ htested hran ih =>
    exact IsTrans.trans _ _ _ ih (IsTrans.trans _ _ _ (htest.rel htested) ((hbody _).rel hran))

/-- A loop keeps what its test and its report keep, and its body in the rounds that it comes to. -/
theorem rel_repeatBody (htest : Keeps R test) (hexceeded : Keeps R exceeded) {limit : Nat}
    (hbody : ∀ k between tested a, RoundsTo test body m k between → k < limit →
      test between = (.ok (some a), tested) → R tested (body a tested).2) :
    ∀ n k between, k + n = limit → RoundsTo test body m k between →
      R between (repeatBody test body exceeded n between).2 := by
  intro n
  -- On the rounds that are left. The rounds that are done carry the statements that were visited in
  -- them, so the body is asked for no more than it is known to keep.
  induction n with
  | zero =>
    intro k between _ _
    refine Keeps.bind htest (fun found => ?_) between
    cases found with
    | none => exact .pure ()
    | some a => exact hexceeded
  | succ n ih =>
    intro k between hlimit hrounds
    rw [repeatBody]
    rcases htested : test between with ⟨stop | found, tested⟩
    · rw [bind_apply_of_error _ htested]
      exact htest.rel htested
    rw [bind_apply_of_ok _ htested]
    cases found with
    | none => exact htest.rel htested
    | some a =>
      have hround : R tested (body a tested).2 :=
        hbody k between tested a hrounds (by omega) htested
      dsimp only
      rcases hran : body a tested with ⟨stop | done, after⟩
      · rw [bind_apply_of_error _ hran]
        rw [hran] at hround
        exact IsTrans.trans _ _ _ (htest.rel htested) hround
      · rw [bind_apply_of_ok _ hran]
        rw [hran] at hround
        have hmore := ih (k + 1) after (by omega) (hrounds.more htested hran)
        exact IsTrans.trans _ _ _ (IsTrans.trans _ _ _ (htest.rel htested) hround) hmore

end Laws

variable {m : Machine}

theorem repeatBody_of_roundsTo {test : Run (Option α)} {body : α → Run Unit} {exceeded : Run Unit}
    {between : Machine} {n limit : Nat} (h : RoundsTo test body m n between) (hn : n ≤ limit) :
    repeatBody test body exceeded limit m = repeatBody test body exceeded (limit - n) between := by
  induction h with
  | start => rfl
  | @more n between tested after a _ htested hran ih =>
    rw [ih (by omega), show limit - n = (limit - (n + 1)) + 1 by omega, repeatBody,
      bind_apply_of_ok _ htested]
    exact bind_apply_of_ok _ hran

/-- A loop that succeeds has succeeded in every round. -/
theorem exists_of_repeatBody_eq_ok {test : Run (Option α)} {body : α → Run Unit}
    {exceeded : Run Unit} {between tested after : Machine} {a : α} {n limit : Nat}
    (h : repeatBody test body exceeded limit m = (.ok (), after))
    (hrounds : RoundsTo test body m n between) (hn : n < limit)
    (htested : test between = (.ok (some a), tested)) :
    ∃ ended, body a tested = (.ok (), ended) := by
  rw [repeatBody_of_roundsTo hrounds (Nat.le_of_lt hn),
    show limit - n = (limit - (n + 1)) + 1 by omega, repeatBody, bind_apply_of_ok _ htested] at h
  obtain ⟨_, ended, hran, -⟩ := exists_of_bind_eq_ok h
  exact ⟨ended, hran⟩

end Run
end SceneScript
