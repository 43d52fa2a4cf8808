import Mathlib.Order.Defs.Unbundled
import SceneScript.Run.Result

namespace SceneScript.Run
variable {α β : Type}

theorem bind_apply (x : Run α) (f : α → Run β) (m : Machine) :
    (x >>= f) m = match x m with
      | (.ok a, after) => f a after
      | (.error stop, after) => (.error stop, after) := by
  rcases h : x m with ⟨_ | a, after⟩ <;>
    simp [bind, ExceptT.bind, ExceptT.mk, ExceptT.bindCont, StateT.bind, h]
  rfl

theorem bind_apply_of_ok {x : Run α} {m after : Machine} {a : α} (f : α → Run β)
    (h : x m = (.ok a, after)) : (x >>= f) m = f a after := by rw [bind_apply, h]

theorem bind_apply_of_error {x : Run α} {m after : Machine} {stop : Stop} (f : α → Run β)
    (h : x m = (.error stop, after)) : (x >>= f) m = (.error stop, after) := by rw [bind_apply, h]

/-- A sequence that comes to a value has had a value of its first run. -/
theorem exists_of_bind_eq_ok {x : Run α} {f : α → Run β} {m after : Machine} {b : β}
    (h : (x >>= f) m = (.ok b, after)) :
    ∃ a between, x m = (.ok a, between) ∧ f a between = (.ok b, after) := by
  rcases hx : x m with ⟨stop | a, between⟩
  · rw [bind_apply_of_error f hx] at h
    cases h
  · rw [bind_apply_of_ok f hx] at h
    exact ⟨a, between, rfl, h⟩

theorem placing_apply (span : Span) (x : Run α) (m : Machine) :
    placing span x m = ((x m).1.mapError (Stop.orSpan span), (x m).2) := rfl

theorem placing_eq_ok {span : Span} {x : Run α} {m after : Machine} {a : α}
    (h : placing span x m = (.ok a, after)) : x m = (.ok a, after) := by
  rw [placing_apply] at h
  rcases hx : x m with ⟨stop | b, between⟩ <;> rw [hx] at h <;> cases h
  rfl

theorem exists_of_placing_eq_error {span : Span} {x : Run α} {m after : Machine} {stop : Stop}
    (h : placing span x m = (.error stop, after)) : ∃ cause, x m = (.error cause, after) := by
  rw [placing_apply] at h
  rcases hx : x m with ⟨cause | b, between⟩ <;> rw [hx] at h <;> cases h
  exact ⟨cause, rfl⟩

@[simp] theorem getStore_apply (m : Machine) : getStore m = (.ok m.store, m) := rfl

@[simp] theorem lookup?_apply (name : String) (m : Machine) :
    lookup? name m = (.ok (m.scope.lookup? name), m) := rfl

@[simp] theorem object_apply (id : ObjectId) (m : Machine) :
    object id m = (.ok (m.store.object id), m) := rfl

@[simp] theorem modifyObject_apply (id : ObjectId) (f : Object → Object) (m : Machine) :
    modifyObject id f m = (.ok (), { m with store := m.store.modifyObject id f }) := rfl

@[simp] theorem notify_apply (notice : Notice) (m : Machine) :
    notify notice m = (.ok (), { m with notices := m.notices.push notice }) := rfl

theorem ofOption_eq_ok {cause : Cause} {o : Option α} {m after : Machine} {a : α}
    (h : ofOption cause o m = (.ok a, after)) : o = some a ∧ after = m := by
  cases o with
  | none => cases h
  | some b => cases h; exact ⟨rfl, rfl⟩

theorem ofExcept_eq_ok {e : Except Cause α} {m after : Machine} {a : α}
    (h : ofExcept e m = (.ok a, after)) : e = .ok a ∧ after = m := by
  cases e with
  | error cause => cases h
  | ok b => cases h; exact ⟨rfl, rfl⟩

theorem lookup_eq_ok {name : String} {m after : Machine} {value : Value}
    (h : lookup name m = (.ok value, after)) : m.scope.lookup? name = some value ∧ after = m :=
  ofOption_eq_ok h

theorem objectNamed_apply (name : String) (m : Machine) :
    objectNamed name m =
      (((m.scope.lookup? name).bind Value.object?).elim
        (.error (.fault (.of (.missingObject name)))) .ok, m) := by
  simp only [objectNamed, bind_apply, lookup?_apply]
  cases (m.scope.lookup? name).bind Value.object? <;> rfl

/-- Every run of `x` leads to a machine that is related to the one before, however it ends. -/
def Keeps (R : Machine → Machine → Prop) (x : Run α) : Prop := ∀ m, R m (x m).2

/-- A run of `x` that stops leads to a machine that is related to the one before. -/
def FailsWithin (R : Machine → Machine → Prop) (x : Run α) : Prop :=
  ∀ m stop after, x m = (.error stop, after) → R m after

def Succeeds (x : Run α) : Prop := ∀ m, ∃ a after, x m = (.ok a, after)

section Laws
variable {R : Machine → Machine → Prop} {x : Run α} {f : α → Run β}

theorem Keeps.rel (h : Keeps R x) {m after : Machine} {result : Except Stop α}
    (hx : x m = (result, after)) : R m after := by simpa only [hx] using h m

theorem Keeps.failsWithin (h : Keeps R x) : FailsWithin R x := fun _ _ _ hx => h.rel hx

theorem Succeeds.failsWithin (h : Succeeds x) : FailsWithin R x := by
  intro m stop after hx
  obtain ⟨a, between, hm⟩ := h m
  rw [hm] at hx
  cases hx

theorem Succeeds.pure (a : α) : Succeeds (pure a : Run α) := fun m => ⟨a, m, rfl⟩

theorem Succeeds.bind (hx : Succeeds x) (hf : ∀ a, Succeeds (f a)) : Succeeds (x >>= f) := by
  intro m
  obtain ⟨a, between, hm⟩ := hx m
  rw [bind_apply_of_ok f hm]
  exact hf a between

theorem Succeeds.modifyObject (id : ObjectId) (g : Object → Object) :
    Succeeds (modifyObject id g) := fun m => ⟨(), _, modifyObject_apply id g m⟩

theorem Succeeds.lookup? (name : String) : Succeeds (lookup? name) := fun m => ⟨_, m, rfl⟩

theorem Succeeds.object (id : ObjectId) : Succeeds (object id) := fun m => ⟨_, m, rfl⟩

theorem Succeeds.get : Succeeds (get : Run Machine) := fun m => ⟨m, m, rfl⟩

theorem Keeps.placing (span : Span) (h : Keeps R x) : Keeps R (placing span x) := by
  intro m
  rw [placing_apply]
  exact h m

theorem FailsWithin.placing (span : Span) (h : FailsWithin R x) :
    FailsWithin R (placing span x) := by
  intro m stop after hx
  obtain ⟨cause, hm⟩ := exists_of_placing_eq_error hx
  exact h m cause after hm

/-- Where the rest of a run depends on what the first part came to. -/
theorem Keeps.bind_of_ok (hx : Keeps R x)
    (hf : ∀ m a between, x m = (.ok a, between) → R m (f a between).2) : Keeps R (x >>= f) := by
  intro m
  rcases h : x m with ⟨stop | a, between⟩
  · rw [bind_apply_of_error f h]
    exact hx.rel h
  · rw [bind_apply_of_ok f h]
    exact hf m a between h

variable [IsPreorder Machine R]

theorem Keeps.pure (a : α) : Keeps R (pure a : Run α) := fun m => refl m

theorem Keeps.bind (hx : Keeps R x) (hf : ∀ a, Keeps R (f a)) : Keeps R (x >>= f) := by
  intro m
  rcases h : x m with ⟨stop | a, between⟩
  · rw [bind_apply_of_error f h]
    exact hx.rel h
  · rw [bind_apply_of_ok f h]
    exact IsTrans.trans _ _ _ (hx.rel h) (hf a between)

theorem Keeps.map (g : α → β) (hx : Keeps R x) : Keeps R (g <$> x) := by
  rw [map_eq_pure_bind]
  exact hx.bind fun a => .pure (g a)

theorem FailsWithin.bind (hx : Keeps R x) (hf : ∀ a, FailsWithin R (f a)) :
    FailsWithin R (x >>= f) := by
  intro m stop after h
  rcases hm : x m with ⟨cause | a, between⟩
  · rw [bind_apply_of_error f hm] at h
    cases h
    exact hx.rel hm
  · rw [bind_apply_of_ok f hm] at h
    exact IsTrans.trans _ _ _ (hx.rel hm) (hf a between stop after h)

theorem Keeps.throw (stop : Stop) : Keeps R (throw stop : Run α) := fun m => refl m

theorem Keeps.fail (cause : Cause) : Keeps R (fail cause : Run α) := .throw _

theorem Keeps.failAt (cause : Cause) (span : Span) : Keeps R (failAt cause span : Run α) := .throw _

theorem Keeps.typeMismatch (expected : String) (got : Value) :
    Keeps R (typeMismatch expected got : Run α) := .fail _

theorem Keeps.ofExcept (e : Except Cause α) : Keeps R (ofExcept e) := by
  cases e with
  | error cause => exact .fail cause
  | ok a => exact .pure a

theorem Keeps.ofOption (cause : Cause) (o : Option α) : Keeps R (ofOption cause o) := by
  cases o with
  | none => exact .fail cause
  | some a => exact .pure a

theorem Keeps.get : Keeps R (get : Run Machine) := fun m => refl m

theorem Keeps.getStore : Keeps R getStore := fun m => refl m

theorem Keeps.lookup? (name : String) : Keeps R (lookup? name) := fun m => refl m

theorem Keeps.lookup (name : String) : Keeps R (lookup name) :=
  (Keeps.lookup? name).bind fun _ => .ofOption _ _

theorem Keeps.objectNamed (name : String) : Keeps R (objectNamed name) :=
  (Keeps.lookup? name).bind fun _ => .ofOption _ _

theorem Keeps.object (id : ObjectId) : Keeps R (object id) := fun m => refl m

theorem Keeps.display (value : Value) : Keeps R (display value) := fun m => refl m

/-- A loop keeps what its test, its body and its report keep. -/
theorem Keeps.repeatBody {test : Run (Option α)} {body : α → Run Unit} {exceeded : Run Unit}
    (htest : Keeps R test) (hbody : ∀ a, Keeps R (body a)) (hexceeded : Keeps R exceeded)
    (n : Nat) : Keeps R (repeatBody test body exceeded n) := by
  induction n with
  | zero =>
    refine htest.bind fun found => ?_
    cases found with
    | none => exact .pure ()
    | some a => exact hexceeded
  | succ n ih =>
    refine htest.bind fun found => ?_
    cases found with
    | none => exact .pure ()
    | some a => exact (hbody a).bind fun _ => ih

end Laws

/-- A value that a run of `x` comes to satisfies `Q` in the machine that the run leads to. -/
def Yields (Q : Machine → α → Prop) (x : Run α) : Prop :=
  ∀ m a after, x m = (.ok a, after) → Q after a

section Yields
variable {Q : Machine → β → Prop}

theorem Yields.throw (stop : Stop) : Yields Q (throw stop : Run β) := by
  intro m b after h
  cases h

theorem Yields.fail (cause : Cause) : Yields Q (Run.fail cause : Run β) := .throw _

theorem Yields.failAt (cause : Cause) (span : Span) : Yields Q (Run.failAt cause span : Run β) :=
  .throw _

theorem Yields.pure {b : β} (h : ∀ m, Q m b) : Yields Q (pure b : Run β) := by
  intro m b' after hb
  cases hb
  exact h m

theorem Yields.bind {x : Run α} {f : α → Run β} (hf : ∀ a, Yields Q (f a)) :
    Yields Q (x >>= f) := by
  intro m b after h
  obtain ⟨a, between, -, hrest⟩ := exists_of_bind_eq_ok h
  exact hf a between b after hrest

theorem Yields.placing (span : Span) {x : Run β} (h : Yields Q x) : Yields Q (Run.placing span x) :=
  fun m b after hb => h m b after (placing_eq_ok hb)

end Yields
end SceneScript.Run

namespace SceneScript.Machine
variable {m after : Machine}

/-- A statement of a file leads where its execution does, and a fault is reported there. -/
theorem runStatement_cases {s : Stmt} (h : m.runStatement s = .ok after) :
    Run.execute s m = (.ok (), after) ∨
      ∃ d ended, Run.execute s m = (.error (.fault d), ended) ∧
        after = { ended with notices := ended.notices.push (.error (d.orSpan s.span)) } := by
  unfold runStatement at h
  rcases hrun : Run.execute s m with ⟨(d | _) | done, ended⟩ <;> rw [hrun] at h <;> cases h
  · exact .inr ⟨d, ended, rfl, rfl⟩
  · exact .inl rfl

theorem exists_of_foldlM_cons {s : Stmt} {more : List Stmt}
    (h : (s :: more).foldlM runStatement m = .ok after) :
    ∃ between, m.runStatement s = .ok between ∧ more.foldlM runStatement between = .ok after := by
  rw [List.foldlM_cons] at h
  cases hrun : m.runStatement s with
  | error stop =>
    rw [hrun] at h
    cases h
  | ok between =>
    rw [hrun] at h
    exact ⟨between, rfl, h⟩

theorem exists_of_foldlM_append {done rest : List Stmt}
    (h : (done ++ rest).foldlM runStatement m = .ok after) :
    ∃ between, done.foldlM runStatement m = .ok between ∧
      rest.foldlM runStatement between = .ok after := by
  induction done generalizing m with
  | nil => exact ⟨m, rfl, h⟩
  | cons first more ih =>
    obtain ⟨next, hfirst, hmore⟩ := exists_of_foldlM_cons h
    obtain ⟨between, hdone, hrest⟩ := ih hmore
    refine ⟨between, ?_, hrest⟩
    rw [List.foldlM_cons, hfirst]
    exact hdone

/-- What each of the statements keeps holds after them. -/
theorem of_foldlM {P : Machine → Prop} {statements : List Stmt}
    (hstep : ∀ s ∈ statements, ∀ m after, m.runStatement s = .ok after → P m → P after)
    (h : statements.foldlM runStatement m = .ok after) (hm : P m) : P after := by
  induction statements generalizing m with
  | nil =>
    cases h
    exact hm
  | cons first more ih =>
    obtain ⟨hfirst, hmore⟩ := List.forall_mem_cons.1 hstep
    obtain ⟨between, hrun, hrest⟩ := exists_of_foldlM_cons h
    exact ih hmore hrest (hfirst m between hrun hm)

end SceneScript.Machine

namespace SceneScript

/-- The result of a program is that of the machine which its statements lead to. -/
theorem Program.run_eq_ok_iff {p : Program} {modules : Table Value} {store : Store}
    {r : Result} : p.run modules store = .ok r ↔
      ∃ m, p.statements.foldlM Machine.runStatement (.start modules store) = .ok m ∧
        m.result = r := by
  unfold run
  cases p.statements.foldlM Machine.runStatement (.start modules store) with
  | error stop =>
    constructor
    · intro h
      cases h
    · rintro ⟨m, hend, -⟩
      cases hend
  | ok m =>
    constructor
    · intro h
      cases h
      exact ⟨m, rfl, rfl⟩
    · rintro ⟨m', hend, rfl⟩
      cases hend
      rfl

end SceneScript
